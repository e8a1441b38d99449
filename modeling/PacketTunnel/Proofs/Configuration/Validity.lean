import PacketTunnel.Proofs.Configuration
import PacketTunnel.Proofs.Datagram.RoundTrip
import PacketTunnel.Proofs.Host.Resolution
import PacketTunnel.Proofs.Route.Insertion
import PacketTunnel.Proofs.Route.Text

/-!
# Valid settings

Which settings are accepted is told here without the order in which they are checked: `Valid` is a
list of conditions on the settings, each on its own, and settings whose endpoint needs no look-up
are accepted exactly when it holds. It asks nothing of an expiry that is not set, since three times
the interval, cut to the greatest number, always exceeds an interval that some timeout exceeds.
`Sufficient` is what an accepted configuration gives to the codec, the engines and the files of a
tunnel.
-/
namespace PacketTunnel.Configuration

open Text

/-- An address of version 4 and a slash, and then the address of a peer or a prefix length of 1 to
30. -/
def IsIPv4Setting (text : String) : Prop :=
  ∃ address rest own, text.toList = address ++ '/' :: rest ∧ IPv4.parse? address = some own ∧
    ((∃ peer, IPv4.parse? rest = some peer) ∨ ∃ length, unsigned? 256 rest = some length ∧
      1 ≤ length ∧ length ≤ 30)

def IsIPv6Setting (text : String) : Prop :=
  ∃ address rest own length, text.toList = address ++ '/' :: rest ∧ IPv6.parse? address = some own ∧
    unsigned? 256 rest = some length ∧ 1 ≤ length ∧ length ≤ 128

/-- Settings that stand for a tunnel. Each condition is on its own, whatever the order of the
checks. -/
structure Valid (s : Settings) : Prop where
  side : (∃ name e, s.listen = some name ∧ s.remote = none ∧ NameService.Names name e) ∨
    ∃ name e, s.listen = none ∧ s.remote = some name ∧ NameService.Names name e
  ipv4 : ∀ text, s.ipv4Address = some text → IsIPv4Setting text
  ipv6 : ∀ text, s.ipv6Address = some text → IsIPv6Setting text
  mtu_ge : (if s.ipv6Address.isSome then 1280 else 576) ≤ (s.mtu.getD 1416).toNat
  mtu_le : (s.mtu.getD 1416).toNat ≤ 9000
  keepalive : 1 ≤ (s.keepalive.getD 13).toNat
  reconnectTimeout : (s.keepalive.getD 13).toNat < (s.reconnectTimeout.getD 60).toNat
  sessionExpiry : ∀ expiry, s.sessionExpiry = some expiry →
    (s.keepalive.getD 13).toNat < expiry.toNat
  interface : 1 ≤ byteLength (s.interface.getD "vt%d").toList ∧
    byteLength (s.interface.getD "vt%d").toList ≤ 15
  encryptionKey : ∀ key, s.encryptionKey = some key → key ≠ "" ∧ s.noEncryption = false
  routes : ∀ text ∈ s.routes, ∃ r, Route.parse text = .ok r
  addressPool : ∀ text, s.addressPool = some text → ∃ pool,
    Subnet.parsePool? text.toList = some pool

theorem optional_eq_ok_iff {ε α β : Type} {check : α → Except ε β} {setting : Option α}
    {result : Option β} :
    optional check setting = .ok result ↔
      (setting = none ∧ result = none) ∨ ∃ a b, setting = some a ∧ result = some b ∧
        check a = .ok b := by
  cases setting with
  | none => simp [optional, eq_comm]
  | some a =>
    rw [optional]
    cases hcheck : check a with
    | error fault => simp [Except.map, hcheck]
    | ok b => simp [Except.map, hcheck, eq_comm]

theorem exists_optional_iff {ε α β : Type} {check : α → Except ε β} {setting : Option α} :
    (∃ result, optional check setting = .ok result) ↔ ∀ a, setting = some a →
      ∃ b, check a = .ok b := by
  simp only [optional_eq_ok_iff]
  constructor
  · rintro ⟨result, ⟨rfl, -⟩ | ⟨a, b, rfl, -, hb⟩⟩ a' ha'
    · cases ha'
    · cases ha'
      exact ⟨b, hb⟩
  · intro h
    cases setting with
    | none => exact ⟨none, .inl ⟨rfl, rfl⟩⟩
    | some a =>
      obtain ⟨b, hb⟩ := h a rfl
      exact ⟨some b, .inr ⟨a, b, rfl, rfl, hb⟩⟩

theorem isSome_of_optional {ε α β : Type} {check : α → Except ε β} {setting : Option α}
    {result : Option β} (h : optional check setting = .ok result) :
    result.isSome = setting.isSome := by
  rcases optional_eq_ok_iff.mp h with ⟨rfl, rfl⟩ | ⟨a, b, rfl, rfl, -⟩ <;> rfl

theorem exists_parseMode_iff {names : NameService} (hnames : names.Faithful)
    {listen remote : Option String}
    (hliteral : ∀ name, listen = some name ∨ remote = some name → NameService.Literal name) :
    (∃ mode, parseMode names listen remote = .ok mode) ↔
      (∃ name e, listen = some name ∧ remote = none ∧ NameService.Names name e) ∨
        ∃ name e, listen = none ∧ remote = some name ∧ NameService.Names name e := by
  have hone {name : String} (hname : NameService.Literal name) (side : Endpoint → Mode) :
      (∃ mode, ((names.resolve name none).mapError ConfigurationFault.resolution).map side =
        .ok mode) ↔
        ∃ e, NameService.Names name e := by
    simp only [← NameService.resolve_eq_ok_iff hnames hname]
    cases names.resolve name none with
    | error fault => exact iff_of_false (by rintro ⟨mode, ⟨⟩⟩) (by rintro ⟨e, ⟨⟩⟩)
    | ok e => exact iff_of_true ⟨side e, rfl⟩ ⟨e, rfl⟩
  cases listen with
  | none =>
    cases remote with
    | none => simp [parseMode]
    | some name => simpa [parseMode] using hone (hliteral name (.inr rfl)) (.client · name)
  | some name =>
    cases remote with
    | none => simpa [parseMode] using hone (hliteral name (.inl rfl)) .server
    | some name' => simp [parseMode]

theorem slash_notMem_ipv4 {address : List Char} {own : IPv4} (h : IPv4.parse? address = some own) :
    '/' ∉ address := by
  intro hslash
  rcases IPv4.mem_of_parse? h _ hslash with hdigit | hpoint
  · exact absurd hdigit (by decide)
  · exact absurd hpoint (by decide)

theorem slash_notMem_ipv6 {address : List Char} {own : IPv6} (h : IPv6.parse? address = some own) :
    '/' ∉ address :=
  fun hslash => absurd (IPv6.mem_of_parse? h _ hslash) (by decide)

theorem exists_parseIPv4_iff {text : String} :
    (∃ a, parseIPv4 text = .ok a) ↔ IsIPv4Setting text := by
  constructor
  · rintro ⟨a, ha⟩
    unfold parseIPv4 at ha
    split at ha
    · cases ha
    · rename_i address rest hsplit
      have htext := (splitFirst?_eq_some_iff.mp hsplit).1
      split at ha
      · cases ha
      · rename_i own hown
        refine ⟨address, rest, own, htext, hown, ?_⟩
        split at ha
        · rename_i peer hpeer
          exact .inl ⟨peer, hpeer⟩
        · split at ha
          · cases ha
          · rename_i length hlength
            split at ha
            · rename_i hrange
              exact .inr ⟨length, hlength, hrange⟩
            · cases ha
  · rintro ⟨address, rest, own, htext, hown, hrest⟩
    have hsplit : splitFirst? '/' text.toList = some (address, rest) :=
      splitFirst?_eq_some_iff.mpr ⟨htext, slash_notMem_ipv4 hown⟩
    simp only [parseIPv4, hsplit, hown]
    cases hpeer : IPv4.parse? rest with
    | some peer => exact ⟨.pair own peer, rfl⟩
    | none =>
      rcases hrest with ⟨peer, hpeer'⟩ | ⟨length, hlength, hrange⟩
      · cases hpeer.symm.trans hpeer'
      · exact ⟨.ipv4 own length, by simp only [hlength, if_pos hrange]⟩

theorem exists_parseIPv6_iff {text : String} :
    (∃ a, parseIPv6 text = .ok a) ↔ IsIPv6Setting text := by
  constructor
  · rintro ⟨a, ha⟩
    unfold parseIPv6 at ha
    split at ha
    · cases ha
    · rename_i address rest hsplit
      split at ha
      · cases ha
      · rename_i own hown
        split at ha
        · cases ha
        · rename_i length hlength
          split at ha
          · rename_i hrange
            exact ⟨address, rest, own, length, (splitFirst?_eq_some_iff.mp hsplit).1, hown, hlength,
              hrange⟩
          · cases ha
  · rintro ⟨address, rest, own, length, htext, hown, hlength, hrange⟩
    have hsplit : splitFirst? '/' text.toList = some (address, rest) :=
      splitFirst?_eq_some_iff.mpr ⟨htext, slash_notMem_ipv6 hown⟩
    exact ⟨.ipv6 own length, by simp only [parseIPv6, hsplit, hown, hlength, if_pos hrange]⟩

theorem checkMtu_eq_ok_iff {mtu m : UInt16} {withIPv6 : Bool} :
    checkMtu mtu withIPv6 = .ok m ↔ m = mtu ∧ leastMtu withIPv6 ≤ mtu.toNat ∧ mtu.toNat ≤ 9000 := by
  rw [checkMtu]
  split
  · rename_i hrange
    simp [hrange, eq_comm]
  · rename_i hrange
    exact iff_of_false (by rintro ⟨⟩) fun h => hrange h.2

theorem toNat_threefold (n : UInt64) : (threefold n).toNat = min (3 * n.toNat) (2 ^ 64 - 1) := by
  have hcut : min (n.toNat * 3) (UInt64.size - 1) < 2 ^ 64 := by
    rw [UInt64.size]
    omega
  rw [threefold, UInt64.toNat_ofNat_of_lt' hcut, Nat.mul_comm]
  rfl

/-- Threefold a positive number exceeds it, cut or not, unless it is the greatest of all. -/
theorem lt_threefold {n m : UInt64} (hpositive : 1 ≤ n.toNat) (h : n.toNat < m.toNat) :
    n.toNat < (threefold n).toNat := by
  have hm := m.toNat_lt
  rw [toNat_threefold]
  omega

/-- An expiry that is not set passes whenever the other durations do. -/
theorem exists_checkTimers_iff {s : Settings} :
    (∃ timers, checkTimers s = .ok timers) ↔
      1 ≤ (s.keepalive.getD 13).toNat ∧
        (s.keepalive.getD 13).toNat < (s.reconnectTimeout.getD 60).toNat ∧
        ∀ expiry, s.sessionExpiry = some expiry → (s.keepalive.getD 13).toNat < expiry.toNat := by
  constructor
  · rintro ⟨timers, htimers⟩
    obtain ⟨rfl, hkeepalive, hreconnect, hexpiry⟩ := checkTimers_eq_ok_iff.mp htimers
    refine ⟨hkeepalive, hreconnect, fun expiry hset => ?_⟩
    rw [timersOf, hset] at hexpiry
    exact hexpiry
  · rintro ⟨hkeepalive, hreconnect, hexpiry⟩
    refine ⟨timersOf s, checkTimers_eq_ok_iff.mpr ⟨rfl, hkeepalive, hreconnect, ?_⟩⟩
    cases hset : s.sessionExpiry with
    | none =>
      rw [timersOf, hset]
      exact lt_threefold hkeepalive hreconnect
    | some expiry =>
      rw [timersOf, hset]
      exact hexpiry expiry hset

theorem exists_checkInterface_iff {name : String} :
    (∃ n, checkInterface name = .ok n) ↔ 1 ≤ byteLength name.toList ∧
      byteLength name.toList ≤ 15 := by
  have hname : Interface.isName name = true ↔ 1 ≤ byteLength name.toList ∧
      byteLength name.toList ≤ 15 := by
    rw [Interface.isName, Bool.and_eq_true, Bool.not_eq_true', decide_eq_true_eq,
      one_le_byteLength_iff, ← Bool.not_eq_true, String.isEmpty_iff, ne_eq,
      String.toList_eq_nil_iff]
    rfl
  rw [checkInterface, ← hname]
  split
  · rename_i h
    exact iff_of_true ⟨name, rfl⟩ h
  · rename_i h
    exact iff_of_false (by rintro ⟨n, ⟨⟩⟩) h

theorem exists_checkPassphrase_iff {key : Option String} {noEncryption : Bool} :
    (∃ p, checkPassphrase key noEncryption = .ok p) ↔ ∀ text, key = some text → text ≠ "" ∧
      noEncryption = false := by
  cases key with
  | none =>
    refine iff_of_true ⟨.disabled, rfl⟩ ?_
    rintro text ⟨⟩
  | some text =>
    cases noEncryption with
    | true => exact iff_of_false (by rintro ⟨p, ⟨⟩⟩) (fun h => by cases (h text rfl).2)
    | false =>
      rw [checkPassphrase]
      split
      · rename_i hempty
        exact iff_of_false (by rintro ⟨p, ⟨⟩⟩)
          (fun h => (h text rfl).1 (String.isEmpty_iff.mp hempty))
      · rename_i hfull
        refine iff_of_true ⟨.secret text, rfl⟩ ?_
        rintro text' ⟨⟩
        exact ⟨fun h => hfull (String.isEmpty_iff.mpr h), rfl⟩

theorem exists_parseRoutes_iff {texts : List String} :
    (∃ routes, parseRoutes texts = .ok routes) ↔ ∀ text ∈ texts, ∃ r, Route.parse text = .ok r := by
  induction texts with
  | nil => exact iff_of_true ⟨[], rfl⟩ (fun text h => by cases h)
  | cons text rest ih =>
    rw [List.forall_mem_cons, ← ih, parseRoutes]
    cases Route.parse text with
    | error fault => exact iff_of_false (by rintro ⟨routes, ⟨⟩⟩) (by rintro ⟨⟨r, ⟨⟩⟩, -⟩)
    | ok r =>
      cases parseRoutes rest with
      | error fault => exact iff_of_false (by rintro ⟨routes, ⟨⟩⟩) (by rintro ⟨-, routes, ⟨⟩⟩)
      | ok rs => exact iff_of_true ⟨r :: rs, rfl⟩ ⟨⟨r, rfl⟩, rs, rfl⟩

theorem exists_parsePool_iff {text : String} :
    (∃ pool, parsePool text = .ok pool) ↔ ∃ pool, Subnet.parsePool? text.toList = some pool := by
  rw [parsePool]
  cases Subnet.parsePool? text.toList with
  | none => exact iff_of_false (by rintro ⟨pool, ⟨⟩⟩) (by rintro ⟨pool, ⟨⟩⟩)
  | some pool => exact iff_of_true ⟨pool.truncate, rfl⟩ ⟨pool, rfl⟩

/-- The endpoints of the settings can be told without a look-up. -/
def NeedsNoLookUp (s : Settings) : Prop :=
  ∀ name, s.listen = some name ∨ s.remote = some name → NameService.Literal name

theorem exists_ofSettings_iff {around : Surroundings} (hnames : around.names.Faithful)
    {s : Settings} (hs : NeedsNoLookUp s) : (∃ c, ofSettings around s = .ok c) ↔ Valid s := by
  constructor
  · rintro ⟨c, hc⟩
    have h := ofSettings_eq_ok_iff.mp hc
    obtain ⟨-, hleast, hgreatest⟩ := checkMtu_eq_ok_iff.mp h.mtu
    rw [isSome_of_optional h.ipv6] at hleast
    obtain ⟨hkeepalive, hreconnect, hexpiry⟩ := exists_checkTimers_iff.mp ⟨_, h.timers⟩
    exact {
      side := (exists_parseMode_iff hnames hs).mp ⟨_, h.mode⟩
      ipv4 := fun text htext =>
        exists_parseIPv4_iff.mp (exists_optional_iff.mp ⟨_, h.ipv4⟩ text htext)
      ipv6 := fun text htext =>
        exists_parseIPv6_iff.mp (exists_optional_iff.mp ⟨_, h.ipv6⟩ text htext)
      mtu_ge := hleast
      mtu_le := hgreatest
      keepalive := hkeepalive
      reconnectTimeout := hreconnect
      sessionExpiry := hexpiry
      interface := exists_checkInterface_iff.mp ⟨_, h.interface⟩
      encryptionKey := exists_checkPassphrase_iff.mp ⟨_, h.passphrase⟩
      routes := exists_parseRoutes_iff.mp ⟨_, h.routes⟩
      addressPool := fun text htext =>
        exists_parsePool_iff.mp (exists_optional_iff.mp ⟨_, h.addressPool⟩ text htext) }
  · intro h
    obtain ⟨mode, hmode⟩ := (exists_parseMode_iff hnames hs).mpr h.side
    obtain ⟨ipv4, hipv4⟩ := exists_optional_iff.mpr fun text htext =>
      exists_parseIPv4_iff.mpr (h.ipv4 text htext)
    obtain ⟨ipv6, hipv6⟩ := exists_optional_iff.mpr fun text htext =>
      exists_parseIPv6_iff.mpr (h.ipv6 text htext)
    have hmtu := checkMtu_eq_ok_iff.mpr ⟨rfl, h.mtu_ge, h.mtu_le⟩
    obtain ⟨timers, htimers⟩ :=
      exists_checkTimers_iff.mpr ⟨h.keepalive, h.reconnectTimeout, h.sessionExpiry⟩
    obtain ⟨interface, hinterface⟩ := exists_checkInterface_iff.mpr h.interface
    obtain ⟨passphrase, hpassphrase⟩ := exists_checkPassphrase_iff.mpr h.encryptionKey
    obtain ⟨routes, hroutes⟩ := exists_parseRoutes_iff.mpr h.routes
    obtain ⟨pool, hpool⟩ := exists_optional_iff.mpr fun text htext =>
      exists_parsePool_iff.mpr (h.addressPool text htext)
    rw [← isSome_of_optional hipv6] at hmtu
    exact ⟨⟨mode, ipv4, ipv6, _, timers.keepalive, timers.reconnectTimeout, timers.sessionExpiry,
      interface, _, passphrase, routes, _, _, _, pool, _⟩,
        ofSettings_eq_ok_iff.mpr ⟨hmode, hipv4, hipv6, hmtu, htimers, hinterface, hpassphrase,
          hroutes, hpool, rfl, rfl, rfl, rfl, rfl⟩⟩

/-- What the parts of a tunnel may rely on. -/
structure Sufficient (c : Configuration) : Prop where
  packets : ∀ iv packet, packet ≠ [] → packet.length ≤ c.mtu.toNat →
    ∃ d, c.codec.encode iv (.data packet) = .ok d ∧ c.codec.decode d = .ok (.data packet)
  reconnectTimeout : c.keepalive.toNat + 1 ≤ c.reconnectTimeout.toNat
  sessionExpiry : c.keepalive.toNat + 1 ≤ c.sessionExpiry.toNat
  /-- The addresses that a server hands out are a network without bits after the prefix, set or
  derived. -/
  pool : ∀ pool, c.effectivePool = some pool → pool.truncate = pool
  routes : ∀ r ∈ c.routeTable.routes, r.network.truncate = r.network
  pidFile : ∀ path, c.pidFile = some path → isAbsolute path = true
  statusFile : ∀ path, c.statusFile = some path → isAbsolute path = true

theorem isAbsolute_absolutePath {directory : String} (h : isAbsolute directory = true)
    (path : String) :
    isAbsolute (absolutePath directory path) = true := by
  have hstart : directory.toList.head? = some '/' := by simpa [isAbsolute] using h
  rw [absolutePath]
  split
  · assumption
  · split <;> simp [isAbsolute, String.toList_append, List.head?_append, hstart]

theorem made_of_mem_parseRoutes {texts : List String} {routes : List Route}
    (h : parseRoutes texts = .ok routes) :
    ∀ r ∈ routes, r.Made := by
  induction texts generalizing routes with
  | nil =>
    cases h
    rintro r ⟨⟩
  | cons text rest ih =>
    rw [parseRoutes] at h
    cases hfirst : Route.parse text with
    | error fault =>
      rw [hfirst] at h
      cases h
    | ok r =>
      cases hrest : parseRoutes rest with
      | error fault =>
        rw [hfirst, hrest] at h
        cases h
      | ok rs =>
        rw [hfirst, hrest] at h
        cases h
        exact List.forall_mem_cons.mpr ⟨Route.made_of_parse hfirst, ih hrest⟩

theorem truncate_of_parsePool {text : String} {pool : Subnet 32} (h : parsePool text = .ok pool) :
    pool.truncate = pool := by
  rw [parsePool] at h
  split at h
  · cases h
    exact Subnet.truncate_truncate _
  · cases h

/-- A pool that is not set is that of the tunnel's own network, with the bits after the prefix
cleared as well. -/
theorem truncate_of_effectivePool {around : Surroundings} {s : Settings} {c : Configuration}
    (h : Checked around s c) {pool : Subnet 32} (hpool : c.effectivePool = some pool) :
    pool.truncate = pool := by
  rcases optional_eq_ok_iff.mp h.addressPool with ⟨-, hunset⟩ | ⟨text, own, -, hset, hown⟩
  · simp only [effectivePool, hunset, Option.orElse_eq_orElse, Option.orElse_eq_or,
      Option.none_or] at hpool
    split at hpool
    · obtain ⟨network, -, rfl⟩ := Option.map_eq_some_iff.mp hpool
      exact network.truncate_truncate
    · cases hpool
  · rw [effectivePool, hset] at hpool
    cases hpool
    exact truncate_of_parsePool hown

theorem truncate_of_mem_routeTable {around : Surroundings} {s : Settings} {c : Configuration}
    (h : Checked around s c) {r : Route} (hr : r ∈ c.routeTable.routes) :
    r.network.truncate = r.network := by
  have hmem : r ∈ c.peerRoute?.toList ++ c.routes := by
    simpa [RouteTable.empty] using RouteTable.mem_insertAll.mp hr
  rcases List.mem_append.mp hmem with hpeer | hset
  · rw [Option.mem_toList, peerRoute?] at hpeer
    split at hpeer
    · cases hpeer
      rfl
    · cases hpeer
  · exact (Route.made_iff.mp (made_of_mem_parseRoutes h.routes r hset)).2

theorem sufficient_of_checked {around : Surroundings}
    (hdirectory : isAbsolute around.directory = true) {s : Settings} {c : Configuration}
    (h : Checked around s c) : Sufficient c where
  packets iv packet hpacket hlength := by
    obtain ⟨hmtu, -, hgreatest⟩ := checkMtu_eq_ok_iff.mp h.mtu
    rw [← hmtu] at hgreatest
    have hwide : c.mtu.toUInt64.toNat = c.mtu.toNat := UInt16.toNat_toUInt64 c.mtu
    exact Codec.exists_encode_data (Codec.ofMtu_limit _ _) hpacket
      (Codec.packet_fits c.protection iv (by omega) (by omega))
  reconnectTimeout := (checkTimers_eq_ok_iff.mp h.timers).2.2.1
  sessionExpiry := (checkTimers_eq_ok_iff.mp h.timers).2.2.2
  pool _ hpool := truncate_of_effectivePool h hpool
  routes _ hr := truncate_of_mem_routeTable h hr
  pidFile path hpath := by
    rw [h.pidFile] at hpath
    obtain ⟨written, -, rfl⟩ := Option.map_eq_some_iff.mp hpath
    exact isAbsolute_absolutePath hdirectory written
  statusFile path hpath := by
    rw [h.statusFile] at hpath
    obtain ⟨written, -, rfl⟩ := Option.map_eq_some_iff.mp hpath
    exact isAbsolute_absolutePath hdirectory written

/-- An expiry that is not set never fails its check: an interval too great for it fails for its
other timeout first. -/
theorem checkTimers_ne_sessionExpiry {s : Settings} (hunset : s.sessionExpiry = none)
    (expiry keepalive : Nat) :
    checkTimers s ≠ .error (.sessionExpiry expiry keepalive) := by
  intro hfault
  simp only [checkTimers, hunset, Option.getD_none] at hfault
  split at hfault
  · cases hfault
  · rename_i hpositive
    split at hfault
    · cases hfault
    · rename_i hreconnect
      split at hfault
      · rename_i hexpiry
        exact UInt64.not_lt.mpr hexpiry
          (lt_threefold (UInt64.not_lt.mp hpositive) (UInt64.not_le.mp hreconnect))
      · cases hfault

/-- Settings whose endpoint needs no look-up are accepted exactly when they are valid, and lead to
the configuration that has what came of each check. An expiry that is not set is three times the
interval, cut to the greatest number, and never the reason of a refusal. And what is accepted is
good for the codec, the engines and the files of a tunnel. -/
theorem accepted_iff_valid {around : Surroundings} (hnames : around.names.Faithful)
    (hdirectory : isAbsolute around.directory = true) {s : Settings} (hs : NeedsNoLookUp s) :
    ((∃ c, ofSettings around s = .ok c) ↔ Valid s) ∧
    (∀ c, ofSettings around s = .ok c ↔ Checked around s c) ∧
    (s.sessionExpiry = none →
      (∀ expiry keepalive, checkTimers s ≠ .error (.sessionExpiry expiry keepalive)) ∧
      ∀ c, ofSettings around s = .ok c →
        c.sessionExpiry.toNat = min (3 * c.keepalive.toNat) (2 ^ 64 - 1)) ∧
    (∀ c, ofSettings around s = .ok c → Sufficient c) := by
  refine ⟨exists_ofSettings_iff hnames hs, fun c => ofSettings_eq_ok_iff,
    fun hunset => ⟨checkTimers_ne_sessionExpiry hunset, fun c hc => ?_⟩,
    fun c hc => sufficient_of_checked hdirectory (ofSettings_eq_ok_iff.mp hc)⟩
  obtain ⟨htimers, -⟩ := checkTimers_eq_ok_iff.mp (ofSettings_eq_ok_iff.mp hc).timers
  have hdefault : c.sessionExpiry = threefold c.keepalive := by
    simp only [timersOf, hunset, Option.getD_none, Timers.mk.injEq] at htimers
    rw [htimers.1]
    exact htimers.2.2
  rw [hdefault, toNat_threefold]

def apart : Surroundings := ⟨.literal, "/srv"⟩

/-- Settings of a server with the greatest interval that any timeout exceeds, and of the others
those that are checked. -/
def greatInterval : Settings :=
  { Settings.unset with
    listen := some "::1:4789"
    ipv4Address := some "10.7.0.1/+030"
    ipv6Address := some "fd00::1/128"
    mtu := some 1280
    keepalive := some 18446744073709551614
    reconnectTimeout := some 18446744073709551615
    interface := some "abcdefghijklmno"
    encryptionKey := some "secret"
    routes := ["10.8.1.0/16 = 10.7.0.2"]
    addressPool := some "10.7.0.77/24"
    pidFile := some "run/pid" }

theorem needsNoLookUp_greatInterval : NeedsNoLookUp greatInterval := by
  have hsplit : splitLast? ':' "::1:4789".toList = some ("::1".toList, "4789".toList) := by decide
  have haddress : HostAddress.parse? "::1".toList = some ⟨.v6 1, 0⟩ := by decide +kernel
  rintro name (h | h)
  · cases h
    exact NameService.literal_of_splitLast? hsplit haddress
  · cases h

theorem accepted_iff_valid_greatInterval :
    apart.names.Faithful ∧ isAbsolute apart.directory = true ∧ NeedsNoLookUp greatInterval ∧
      Valid greatInterval ∧
      ∃ c, ofSettings apart greatInterval = .ok c ∧ c.sessionExpiry.toNat = 18446744073709551615 ∧
      Sufficient c := by
  have hnames : apart.names.Faithful := NameService.faithful_literal
  have hdirectory : isAbsolute apart.directory = true := by decide
  have haccepted : (ofSettings apart greatInterval).toOption.isSome = true := by decide +kernel
  cases hc : ofSettings apart greatInterval with
  | error failure =>
    rw [hc] at haccepted
    cases haccepted
  | ok c =>
    obtain ⟨hvalid, hchecked, hunset, hsufficient⟩ :=
      accepted_iff_valid hnames hdirectory needsNoLookUp_greatInterval
    obtain ⟨htimers, -⟩ := checkTimers_eq_ok_iff.mp ((hchecked c).mp hc).timers
    refine ⟨hnames, hdirectory, needsNoLookUp_greatInterval, hvalid.mp ⟨c, hc⟩, c, rfl, ?_,
      hsufficient c hc⟩
    rw [(hunset rfl).2 c hc,
      show c.keepalive = 18446744073709551614 from congrArg Timers.keepalive htimers]
    decide

end PacketTunnel.Configuration
