import PacketTunnel.Session.Basic

/-!
# The pulse of a tunnel

A client that ticks often enough keeps both ends from falling silent: at each tick the last probe is
less than an interval ago or a new one goes out, and a probe is heard by the server and its answer
by the client before time goes on. `Pulse` says how old the two ends' news of each other may be,
given what is still on the wire; the lemmas say how it beats. Only the times matter here, not how
they come about.
-/
namespace PacketTunnel

/-- The time as it was seen so far: the latest moment, and the client's latest tick. -/
structure Clock where
  now : Time
  lastTick : Time

/-- The client last heard at `a` and last probed at `u`, the server last heard at `b`. The tick
before which both were heard may lie an interval after that, and the present moment a slack after
the tick; what was probed later is on the wire, as a probe or as its answer. -/
structure Pulse (interval slack : Duration) (k : Clock) (a b : Time) (u : Option Time)
    (probe answer : Prop) : Prop where
  ticked : k.lastTick ≤ k.now
  probed : ∀ v, u = some v → v ≤ k.now
  client : k.now ≤ a + interval + slack
  server : k.now ≤ b + interval + slack
  serverHears : probe ∨ k.lastTick ≤ b + interval ∧ ∀ v, u = some v → v ≤ b
  clientHears : probe ∨ answer ∨ k.lastTick ≤ a + interval ∧ ∀ v, u = some v → v ≤ a

namespace Pulse

variable {interval slack : Duration} {k : Clock} {a b : Time} {u : Option Time}
  {probe answer probe' answer' : Prop}

theorem start (hticked : k.lastTick ≤ k.now) (hclose : k.now ≤ k.lastTick + slack)
    (ha : k.lastTick ≤ a) (hb : k.lastTick ≤ b) : Pulse interval slack k a b none probe answer := by
  have hlate (c : Time) (hc : k.lastTick ≤ c) : k.now ≤ c + interval + slack := by
    unfold Time Duration at *
    omega
  have hheard (c : Time) (hc : k.lastTick ≤ c) : k.lastTick ≤ c + interval :=
    Nat.le_trans hc (Nat.le_add_right c interval)
  exact ⟨hticked, nofun, hlate a ha, hlate b hb, .inr ⟨hheard b hb, nofun⟩,
    .inr (.inr ⟨hheard a ha, nofun⟩)⟩

/-- What is on the wire may become more, and a probe its answer. -/
theorem wire (h : Pulse interval slack k a b u probe answer) (hprobe : probe → probe')
    (hanswer : answer → answer') : Pulse interval slack k a b u probe' answer' where
  ticked := h.ticked
  probed := h.probed
  client := h.client
  server := h.server
  serverHears := h.serverHears.imp_left hprobe
  clientHears := h.clientHears.imp hprobe fun hheard => hheard.imp_left hanswer

theorem advance (h : Pulse interval slack k a b u probe answer) (hprobe : ¬ probe)
    (hanswer : ¬ answer) {t : Time} (hlater : k.now ≤ t) (hslack : t ≤ k.lastTick + slack) :
    Pulse interval slack { k with now := t } a b u probe answer := by
  have hserver := h.serverHears.resolve_left hprobe
  have hclient := (h.clientHears.resolve_left hprobe).resolve_left hanswer
  refine ⟨Nat.le_trans h.ticked hlater, fun v hv => Nat.le_trans (h.probed v hv) hlater, ?_, ?_,
    h.serverHears, h.clientHears⟩
  · have hheard := hclient.1
    unfold Time Duration at *
    dsimp only
    omega
  · have hheard := hserver.1
    unfold Time Duration at *
    dsimp only
    omega

/-- The server hears the client. A probe on the wire may have been what it heard; then it is
answered. -/
theorem server_heard (h : Pulse interval slack k a b u probe answer)
    (hprobe : probe → probe' ∨ answer') (hanswer : answer → answer') :
    Pulse interval slack k a k.now u probe' answer' := by
  have hlate : k.now ≤ k.now + interval + slack := by
    unfold Time Duration at *
    omega
  refine ⟨h.ticked, h.probed, h.client, hlate, .inr ⟨?_, h.probed⟩, ?_⟩
  · exact Nat.le_trans h.ticked (Nat.le_add_right _ _)
  · rcases h.clientHears with hp | hq | hheard
    · rcases hprobe hp with hp' | hq'
      · exact .inl hp'
      · exact .inr (.inl hq')
    · exact .inr (.inl (hanswer hq))
    · exact .inr (.inr hheard)

theorem client_heard (h : Pulse interval slack k a b u probe answer) (hprobe : probe → probe') :
    Pulse interval slack k k.now b u probe' answer' := by
  have hlate : k.now ≤ k.now + interval + slack := by
    unfold Time Duration at *
    omega
  refine ⟨h.ticked, h.probed, hlate, h.server, h.serverHears.imp_left hprobe,
    .inr (.inr ⟨?_, h.probed⟩)⟩
  exact Nat.le_trans h.ticked (Nat.le_add_right _ _)

theorem tick_early (h : Pulse interval slack k a b u probe answer) {v : Time} (hu : u = some v)
    (hearly : k.now < v + interval) : Pulse interval slack ⟨k.now, k.now⟩ a b u probe answer := by
  have hbefore (c : Time) (hv : v ≤ c) : k.now ≤ c + interval := by
    unfold Time Duration at *
    omega
  refine ⟨Nat.le_refl _, h.probed, h.client, h.server, ?_, ?_⟩
  · exact h.serverHears.imp_right fun hheard => ⟨hbefore b (hheard.2 v hu), hheard.2⟩
  · exact h.clientHears.imp_right fun hheard =>
      hheard.imp_right fun hheard => ⟨hbefore a (hheard.2 v hu), hheard.2⟩

theorem tick_probe (h : Pulse interval slack k a b u probe answer) (hprobe : probe') :
    Pulse interval slack ⟨k.now, k.now⟩ a b (some k.now) probe' answer' := by
  refine ⟨Nat.le_refl _, fun v hv => ?_, h.client, h.server, .inl hprobe, .inl hprobe⟩
  exact Nat.le_of_eq (Option.some.inj hv).symm

end Pulse

end PacketTunnel
