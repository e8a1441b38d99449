import PacketTunnel.Configuration
import PacketTunnel.Proofs.Except

/-!
# Accepted configurations

What the checks of settings guarantee of the configurations that pass them. The keepalive interval
of an accepted configuration lies at least a second under both of its timeouts, in whole seconds as
it is written and in milliseconds as the two ends use it.
-/
namespace PacketTunnel.Configuration

def Accepted (c : Configuration) : Prop := ∃ around settings, ofSettings around settings = .ok c

/-- The durations that are checked: those that are set, and the usual ones for the others. -/
def timersOf (s : Settings) : Timers where
  keepalive := s.keepalive.getD 13
  reconnectTimeout := s.reconnectTimeout.getD 60
  sessionExpiry := s.sessionExpiry.getD (threefold (s.keepalive.getD 13))

theorem checkTimers_eq_ok_iff {s : Settings} {timers : Timers} :
    checkTimers s = .ok timers ↔ timers = timersOf s ∧ 1 ≤ timers.keepalive ∧
      timers.keepalive < timers.reconnectTimeout ∧ timers.keepalive < timers.sessionExpiry := by
  constructor
  · intro h
    unfold checkTimers at h
    dsimp only at h
    split at h
    · cases h
    · rename_i hkeepalive
      split at h
      · cases h
      · rename_i hreconnect
        split at h
        · cases h
        · rename_i hexpiry
          cases h
          exact ⟨rfl, UInt64.not_lt.mp hkeepalive, UInt64.not_le.mp hreconnect,
            UInt64.not_le.mp hexpiry⟩
  · rintro ⟨rfl, hkeepalive, hreconnect, hexpiry⟩
    exact (if_neg (UInt64.not_lt.mpr hkeepalive)).trans <|
      (if_neg (UInt64.not_le.mpr hreconnect)).trans <| if_neg (UInt64.not_le.mpr hexpiry)

/-- What is checked, and where a configuration has what came of it. -/
structure Checked (around : Surroundings) (s : Settings) (c : Configuration) : Prop where
  mode : parseMode around.names s.listen s.remote = .ok c.mode
  ipv4 : optional parseIPv4 s.ipv4Address = .ok c.ipv4
  ipv6 : optional parseIPv6 s.ipv6Address = .ok c.ipv6
  mtu : checkMtu (s.mtu.getD 1416) c.ipv6.isSome = .ok c.mtu
  timers : checkTimers s = .ok ⟨c.keepalive, c.reconnectTimeout, c.sessionExpiry⟩
  interface : checkInterface (s.interface.getD "vt%d") = .ok c.interface
  passphrase : checkPassphrase s.encryptionKey s.noEncryption = .ok c.passphrase
  routes : parseRoutes s.routes = .ok c.routes
  addressPool : optional parsePool s.addressPool = .ok c.addressPool
  pidFile : c.pidFile = s.pidFile.map (absolutePath around.directory)
  statusFile : c.statusFile = s.statusFile.map (absolutePath around.directory)
  relay : c.relay = s.relay
  implicitLogin : c.implicitLogin = s.implicitLogin.getD true
  advertiseRoutes : c.advertiseRoutes = s.advertiseRoutes.getD true

/-- A configuration comes of settings exactly when it has what came of each check. -/
theorem ofSettings_eq_ok_iff {around : Surroundings} {s : Settings} {c : Configuration} :
    ofSettings around s = .ok c ↔ Checked around s c := by
  simp only [ofSettings, Except.bind_eq_ok_iff, Except.mapError_eq_ok_iff]
  constructor
  · rintro ⟨mode, hmode, ipv4, hipv4, ipv6, hipv6, mtu, hmtu, timers, htimers, interface,
      hinterface, passphrase, hpassphrase, routes, hroutes, pool, hpool, h⟩
    cases h
    exact ⟨hmode, hipv4, hipv6, hmtu, htimers, hinterface, hpassphrase, hroutes, hpool, rfl, rfl,
      rfl, rfl, rfl⟩
  · intro h
    refine ⟨_, h.mode, _, h.ipv4, _, h.ipv6, _, h.mtu, _, h.timers, _, h.interface, _, h.passphrase,
      _, h.routes, _, h.addressPool, ?_⟩
    rw [← h.pidFile, ← h.statusFile, ← h.relay, ← h.implicitLogin, ← h.advertiseRoutes]

theorem Accepted.keepalive_lt {c : Configuration} (h : c.Accepted) :
    c.keepalive < c.reconnectTimeout ∧ c.keepalive < c.sessionExpiry := by
  obtain ⟨around, settings, hc⟩ := h
  exact (checkTimers_eq_ok_iff.mp (ofSettings_eq_ok_iff.mp hc).timers).2.2

/-- A number of seconds under another leaves room for a second more. -/
private theorem milliseconds_le {m n : UInt64} (h : m < n) :
    m.toNat * 1000 + 1000 ≤ n.toNat * 1000 := by
  have hlt : m.toNat < n.toNat := h
  omega

/-- A client probes at least a second before it gives up. -/
theorem Accepted.keepalive_le_reconnectTimeout {c : Configuration} (h : c.Accepted)
    {interface : String} {options : ClientOptions}
    (hoptions : c.clientOptions interface = .ok options) :
    options.keepalive + 1000 ≤ options.reconnectTimeout := by
  unfold clientOptions at hoptions
  split at hoptions
  · cases hoptions
  · cases hoptions
    exact milliseconds_le h.keepalive_lt.1

theorem Accepted.keepalive_le_sessionExpiry {c c' : Configuration} (h : c.Accepted)
    (hsame : c'.keepalive = c.keepalive) {interface : String} {options : ClientOptions}
    (hoptions : c'.clientOptions interface = .ok options) (interface' : String) :
    options.keepalive + 1000 ≤ (c.serverOptions interface').sessionExpiry := by
  unfold clientOptions at hoptions
  split at hoptions
  · cases hoptions
  · cases hoptions
    rw [hsame]
    exact milliseconds_le h.keepalive_lt.2

theorem accepted_of_toOption (around : Surroundings) (s : Settings) {c : Configuration}
    (h : (ofSettings around s).toOption = some c) : c.Accepted := by
  cases hc : ofSettings around s with
  | error failure =>
    rw [hc] at h
    cases h
  | ok c' =>
    rw [hc] at h
    cases h
    exact ⟨around, s, hc⟩

/-- The configuration of settings that say nothing but which side to run, and where the server is.
-/
def plain (mode : Mode) : Configuration where
  mode := mode
  ipv4 := none
  ipv6 := none
  mtu := 1416
  keepalive := 13
  reconnectTimeout := 60
  sessionExpiry := 39
  interface := "vt%d"
  pidFile := none
  passphrase := .disabled
  routes := []
  relay := false
  implicitLogin := true
  advertiseRoutes := true
  addressPool := none
  statusFile := none

theorem accepted_plain_client :
    (plain (.client (.v4 0xc6336464 4789) "198.51.100.100:4789")).Accepted :=
  accepted_of_toOption ⟨.literal, "/"⟩ { Settings.unset with remote := some "198.51.100.100:4789" }
    (by decide +kernel)

theorem accepted_plain_server : (plain (.server (.v4 0xc6336464 4789))).Accepted :=
  accepted_of_toOption ⟨.literal, "/"⟩ { Settings.unset with listen := some "198.51.100.100:4789" }
    (by decide +kernel)

end PacketTunnel.Configuration
