import PacketTunnel.Proofs.Json.Omission
import PacketTunnel.Status.File

/-!
# Snapshots survive their file

A snapshot becomes a value, the value a text, and the text is read as the value and the value as the
snapshot. An object with the fields of a record in order reads as the record; numbers and strings
read as what was written; and what stands for nothing may be left out, wherever it stands, since the
readers take it for granted.
-/
namespace PacketTunnel

open JsonValue

namespace JsonValue

theorem membersNamed_of_notMem {name : String} :
    ∀ {names : List String}, name ∉ names → ∀ values : List JsonValue,
    membersNamed (List.zipWith field names values) name = []
  | [], _, _ => rfl
  | _ :: _, _, [] => rfl
  | n :: names, h, v :: values => by
    have hkey : some n.toList ≠ some name.toList := fun heq =>
      h (String.toList_inj.mp (Option.some.inj heq) ▸ List.mem_cons_self)
    rw [List.zipWith_cons_cons, field, membersNamed_cons, if_neg hkey,
      membersNamed_of_notMem (fun hname => h (List.mem_cons_of_mem n hname)) values]

theorem membersNamed_zipWith {name : String} :
    ∀ {names : List String} {i : Nat} (values : List JsonValue), names.Nodup →
    names[i]? = some name → membersNamed (List.zipWith field names values) name = values[i]?.toList
  | _ :: _, _, [], _, _ => rfl
  | n :: names, 0, v :: values, h, hi => by
    cases hi
    rw [List.zipWith_cons_cons, field, membersNamed_cons, if_pos rfl,
      membersNamed_of_notMem (List.nodup_cons.mp h).1]
    rfl
  | n :: names, i + 1, v :: values, h, hi => by
    obtain ⟨hn, hnames⟩ := List.nodup_cons.mp h
    have hkey : some n.toList ≠ some name.toList := fun heq =>
      hn (String.toList_inj.mp (Option.some.inj heq) ▸ List.mem_of_getElem? hi)
    rw [List.zipWith_cons_cons, field, membersNamed_cons, if_neg hkey]
    exact membersNamed_zipWith values hnames hi

theorem fields?_object {names : List String} (hnames : names.Nodup) (values : List JsonValue) :
    ∃ f : JsonFields, fields? names (object (List.zipWith field names values)) = some f ∧
      ∀ (i : Nat) (name : String), names[i]? = some name → f name = values[i]? := by
  have hkeys : (List.zipWith field names values).all (fun m => m.1.isSome) = true := by
    rw [List.all_eq_true]
    intro m hm
    obtain ⟨i, hi, rfl⟩ := List.mem_iff_getElem.mp hm
    simp [field]
  have hone : names.all (fun n => (membersNamed (List.zipWith field names values) n).length ≤ 1) =
      true := by
    rw [List.all_eq_true]
    intro n hn
    obtain ⟨i, hi⟩ := List.mem_iff_getElem?.mp hn
    rw [membersNamed_zipWith values hnames hi]
    cases values[i]? <;> rfl
  refine ⟨fun n => (membersNamed (List.zipWith field names values) n).head?, ?_,
    fun i name hi => ?_⟩
  · rw [fields?, hkeys, hone]
    rfl
  · exact (congrArg List.head? (membersNamed_zipWith values hnames hi)).trans Option.head?_toList

theorem toUInt64?_ofNat (n : UInt64) : toUInt64? (ofNat n.toNat) = some n := by
  have hall : ∀ c ∈ Text.decimal n.toNat, Text.isDigit 10 c = true :=
    Text.isDigit_of_mem_toDigits (by decide) (by decide) n.toNat
  have hvalue : Text.digitsValue 10 (Text.decimal n.toNat) = n.toNat :=
    Text.digitsValue_toDigits (by decide) (by decide) n.toNat
  have hempty : (Text.decimal n.toNat).isEmpty = false :=
    List.isEmpty_eq_false_iff.mpr Nat.toDigits_ne_nil
  rw [ofNat, toUInt64?, List.all_eq_true.mpr hall, hvalue, hempty, decide_eq_true n.toNat_lt]
  exact congrArg some n.ofNat_toNat

theorem toString?_ofString (s : String) : toString? (ofString s) = some s := by
  simp [ofString, toString?]

theorem nullable?_ofOption (s : Option String) :
    nullable? toString? (ofOption ofString s) = some s := by
  cases s with
  | none => rfl
  | some s => exact congrArg (Option.map some) (toString?_ofString s)

theorem list?_map {α : Type} {item : JsonValue → Option α} {print : α → JsonValue}
    (h : ∀ a, item (print a) = some a) (as : List α) :
    list? item (array (as.map print)) = some as := by
  rw [list?]
  induction as with
  | nil => rfl
  | cons a as ih => rw [List.map_cons, List.mapM_cons, h, ih]; rfl

end JsonValue

theorem need_bind {α β : Type} {f : JsonFields} {name : String} {item : JsonValue → Option α}
    {next : α → Option β} {v : JsonValue} {a : α} {b : β} (hfield : f name = some v)
    (hitem : item v = some a) (hnext : next a = some b) :
    (f.need name item).bind next = some b := by
  rw [JsonFields.need, hfield, Option.bind_some, hitem, Option.bind_some, hnext]

theorem orElse_bind {α β : Type} {f : JsonFields} {name : String} {item : JsonValue → Option α}
    {next : α → Option β} {v : JsonValue} {a missing : α} {b : β} (hfield : f name = some v)
    (hitem : item v = some a) (hnext : next a = some b) :
    (f.orElse name item missing).bind next = some b := by
  simp only [JsonFields.orElse, hfield, hitem, Option.bind_some, hnext]

theorem Counters.ofJson?_toJson (c : Counters) : ofJson? c.toJson = some c := by
  obtain ⟨f, hf, hfield⟩ := fields?_object (by decide : fieldNames.Nodup)
    [.ofNat c.datagramsIn.toNat, .ofNat c.datagramsOut.toNat, .ofNat c.droppedFormat.toNat,
      .ofNat c.droppedAuth.toNat, .ofNat c.droppedUnknown.toNat, .ofNat c.droppedUnroutable.toNat,
      .ofNat c.deviceWrites.toNat,
      .ofNat c.relayed.toNat]
  rw [ofJson?, show c.toJson.fields? fieldNames = some f from hf]
  exact
    need_bind (hfield 0 _ rfl) (toUInt64?_ofNat _) <|
    need_bind (hfield 1 _ rfl) (toUInt64?_ofNat _) <|
    need_bind (hfield 2 _ rfl) (toUInt64?_ofNat _) <|
    need_bind (hfield 3 _ rfl) (toUInt64?_ofNat _) <|
    need_bind (hfield 4 _ rfl) (toUInt64?_ofNat _) <|
    need_bind (hfield 5 _ rfl) (toUInt64?_ofNat _) <|
    need_bind (hfield 6 _ rfl) (toUInt64?_ofNat _) <|
    need_bind (hfield 7 _ rfl) (toUInt64?_ofNat _) rfl

theorem SessionSnapshot.ofJson?_toJson (s : SessionSnapshot) : ofJson? s.toJson = some s := by
  obtain ⟨f, hf, hfield⟩ := fields?_object (by decide : fieldNames.Nodup)
    [.ofString s.endpoint, .ofOption .ofString s.ipv4, .ofOption .ofString s.ipv6,
      .ofNat s.idleSeconds.toNat, .ofNat s.uptimeSeconds.toNat, .array (s.routes.map .ofString),
      .ofNat s.receivedPackets.toNat,
      .ofNat s.sentPackets.toNat, .ofNat s.receivedBytes.toNat, .ofNat s.sentBytes.toNat]
  rw [ofJson?, show s.toJson.fields? fieldNames = some f from hf]
  exact
    need_bind (hfield 0 _ rfl) (toString?_ofString _) <|
    orElse_bind (hfield 1 _ rfl) (nullable?_ofOption _) <|
    orElse_bind (hfield 2 _ rfl) (nullable?_ofOption _) <|
    need_bind (hfield 3 _ rfl) (toUInt64?_ofNat _) <|
    need_bind (hfield 4 _ rfl) (toUInt64?_ofNat _) <|
    orElse_bind (hfield 5 _ rfl) (list?_map toString?_ofString _) <|
    need_bind (hfield 6 _ rfl) (toUInt64?_ofNat _) <|
    need_bind (hfield 7 _ rfl) (toUInt64?_ofNat _) <|
    need_bind (hfield 8 _ rfl) (toUInt64?_ofNat _) <|
    need_bind (hfield 9 _ rfl) (toUInt64?_ofNat _) rfl

theorem Snapshot.ofJson?_toJson (s : Snapshot) : ofJson? s.toJson = some s := by
  obtain ⟨f, hf, hfield⟩ := fields?_object (by decide : fieldNames.Nodup)
    [.ofString s.mode, .ofString s.interface, .ofOption .ofString s.state,
      .ofOption .ofString s.server, .bool s.encrypted, .ofNat s.uptimeSeconds.toNat,
      .array (s.sessions.map SessionSnapshot.toJson),
      .array (s.routes.map .ofString), s.counters.toJson]
  rw [ofJson?, show s.toJson.fields? fieldNames = some f from hf]
  exact
    need_bind (hfield 0 _ rfl) (toString?_ofString _) <|
    need_bind (hfield 1 _ rfl) (toString?_ofString _) <|
    orElse_bind (hfield 2 _ rfl) (nullable?_ofOption _) <|
    orElse_bind (hfield 3 _ rfl) (nullable?_ofOption _) <|
    need_bind (hfield 4 _ rfl) rfl <| need_bind (hfield 5 _ rfl) (toUInt64?_ofNat _) <|
    need_bind (hfield 6 _ rfl) (list?_map SessionSnapshot.ofJson?_toJson _) <|
    orElse_bind (hfield 7 _ rfl) (list?_map toString?_ofString _) <|
    need_bind (hfield 8 _ rfl) s.counters.ofJson?_toJson rfl

theorem statable_ofString (s : String) : (ofString s).Statable := by
  simp [ofString, Statable]

theorem statable_ofNat (n : Nat) : (ofNat n).Statable := ⟨n, rfl⟩

theorem statable_ofOption : ∀ s : Option String, (ofOption ofString s).Statable
  | none => trivial
  | some s => statable_ofString s

theorem statable_map {α : Type} {print : α → JsonValue} (h : ∀ a, (print a).Statable) :
    ∀ as : List α, StatableItems (as.map print)
  | [] => trivial
  | a :: as => ⟨h a, statable_map h as⟩

theorem Counters.statable_toJson (c : Counters) : c.toJson.Statable := by
  simp [toJson, Statable, StatableMembers, field, statable_ofNat]

theorem SessionSnapshot.statable_toJson (s : SessionSnapshot) : s.toJson.Statable := by
  simp [toJson, Statable, StatableMembers, field, statable_ofNat, statable_ofString,
    statable_ofOption, statable_map statable_ofString]

theorem Snapshot.statable_toJson (s : Snapshot) : s.toJson.Statable := by
  simp [toJson, Statable, StatableMembers, field, statable_ofNat, statable_ofString,
    statable_ofOption, statable_map statable_ofString, statable_map SessionSnapshot.statable_toJson,
    Counters.statable_toJson]

/-- The members that stand for nothing: an absent state, server or address, and an empty list of
routes. -/
def optionalMembers : List (Option (List Char) × JsonValue) :=
  [field "state" .null, field "server" .null, field "ipv4" .null, field "ipv6" .null,
    field "routes" (.array [])]

theorem tolerates_toUInt64? : Tolerates optionalMembers toUInt64? :=
  tolerates_of_atoms (fun _ => rfl) fun _ => rfl

theorem tolerates_toBool? : Tolerates optionalMembers toBool? :=
  tolerates_of_atoms (fun _ => rfl) fun _ => rfl

theorem tolerates_toString? : Tolerates optionalMembers toString? :=
  tolerates_of_atoms (fun _ => rfl) fun _ => rfl

theorem Counters.tolerates_ofJson? : Tolerates optionalMembers ofJson? :=
  ToleratesFields.record <|
    .bind (toleratesFields_need (by decide) (by decide) tolerates_toUInt64?) fun _ =>
    .bind (toleratesFields_need (by decide) (by decide) tolerates_toUInt64?) fun _ =>
    .bind (toleratesFields_need (by decide) (by decide) tolerates_toUInt64?) fun _ =>
    .bind (toleratesFields_need (by decide) (by decide) tolerates_toUInt64?) fun _ =>
    .bind (toleratesFields_need (by decide) (by decide) tolerates_toUInt64?) fun _ =>
    .bind (toleratesFields_need (by decide) (by decide) tolerates_toUInt64?) fun _ =>
    .bind (toleratesFields_need (by decide) (by decide) tolerates_toUInt64?) fun _ =>
    .bind (toleratesFields_need (by decide) (by decide) tolerates_toUInt64?) fun _ =>
    .pure _

theorem SessionSnapshot.tolerates_ofJson? : Tolerates optionalMembers ofJson? :=
  ToleratesFields.record <|
    .bind (toleratesFields_need (by decide) (by decide) tolerates_toString?) fun _ =>
    .bind (toleratesFields_orElse (by decide) (by decide) tolerates_toString?.nullable?) fun _ =>
    .bind (toleratesFields_orElse (by decide) (by decide) tolerates_toString?.nullable?) fun _ =>
    .bind (toleratesFields_need (by decide) (by decide) tolerates_toUInt64?) fun _ =>
    .bind (toleratesFields_need (by decide) (by decide) tolerates_toUInt64?) fun _ =>
    .bind (toleratesFields_orElse (by decide) (by decide) tolerates_toString?.list?) fun _ =>
    .bind (toleratesFields_need (by decide) (by decide) tolerates_toUInt64?) fun _ =>
    .bind (toleratesFields_need (by decide) (by decide) tolerates_toUInt64?) fun _ =>
    .bind (toleratesFields_need (by decide) (by decide) tolerates_toUInt64?) fun _ =>
    .bind (toleratesFields_need (by decide) (by decide) tolerates_toUInt64?) fun _ =>
    .pure _

theorem Snapshot.tolerates_ofJson? : Tolerates optionalMembers ofJson? :=
  ToleratesFields.record <|
    .bind (toleratesFields_need (by decide) (by decide) tolerates_toString?) fun _ =>
    .bind (toleratesFields_need (by decide) (by decide) tolerates_toString?) fun _ =>
    .bind (toleratesFields_orElse (by decide) (by decide) tolerates_toString?.nullable?) fun _ =>
    .bind (toleratesFields_orElse (by decide) (by decide) tolerates_toString?.nullable?) fun _ =>
    .bind (toleratesFields_need (by decide) (by decide) tolerates_toBool?) fun _ =>
    .bind (toleratesFields_need (by decide) (by decide) tolerates_toUInt64?) fun _ =>
    .bind (toleratesFields_need (by decide) (by decide) SessionSnapshot.tolerates_ofJson?.list?)
      fun _ =>
    .bind (toleratesFields_orElse (by decide) (by decide) tolerates_toString?.list?) fun _ =>
    .bind (toleratesFields_need (by decide) (by decide) Counters.tolerates_ofJson?) fun _ =>
    .pure _

namespace Snapshot

theorem read?_of_omits {s : Snapshot} {v : JsonValue} (h : Omits optionalMembers s.toJson v)
    {text : List Char} (hparse : parse? text = some v) : read? (String.ofList text) = some s := by
  rw [read?, String.toList_ofList, hparse]
  exact tolerates_ofJson? _ _ s h s.ofJson?_toJson

theorem read?_toText_of_omits {s : Snapshot} {v : JsonValue}
    (h : Omits optionalMembers s.toJson v) :
    read? v.toText = some s :=
  read?_of_omits h (parse?_print (h.statable s.statable_toJson))

theorem perform_operations (s : Snapshot) (path : String) (files : Files) :
    (StatusFile.operations path s).foldl FileOperation.perform files path =
      some s.write.toList := by
  simp [StatusFile.operations, FileOperation.perform, Files.put]

/-- A snapshot is read back from the file that it was written to, and from every text of the same
value without any of the members that stand for nothing. -/
theorem survives_file (s : Snapshot) (path : String) (files : Files) :
    (∃ text, (StatusFile.operations path s).foldl FileOperation.perform files path = some text ∧
      read? (String.ofList text) = some s) ∧
    ∀ v, Omits optionalMembers s.toJson v →
      read? v.toText = some s ∧ ∀ text, parse? text = some v →
      read? (String.ofList text) = some s := by
  refine ⟨⟨s.write.toList, s.perform_operations path files, ?_⟩, fun v hv =>
    ⟨read?_toText_of_omits hv, fun text => read?_of_omits hv⟩⟩
  rw [String.ofList_toList]
  exact read?_toText_of_omits (.same _)

/-- A server with a quote, a backslash and control characters in its interface's name, and one
session. -/
def quaint : Snapshot :=
  { mode := "server", interface := "tun\"0\\\n\x01é", state := none, server := none,
    encrypted := true, uptimeSeconds := 18446744073709551615,
    sessions := [⟨"[2001:db8::1]:4789", some "10.7.0.2", none, 0, 1, [], 2, 3, 4, 5⟩], routes := [],
    counters := .zero }

def quaintBare : JsonValue :=
  .object [field "mode" (.ofString "server"), field "interface" (.ofString "tun\"0\\\n\x01é"),
    field "encrypted" (.bool true), field "uptime_secs" (.ofNat 18446744073709551615),
    field "sessions" (.array [.object [
      field "endpoint" (.ofString "[2001:db8::1]:4789"), field "ipv4" (.ofString "10.7.0.2"),
      field "idle_secs" (.ofNat 0), field "uptime_secs" (.ofNat 1), field "rx_packets" (.ofNat 2),
      field "tx_packets" (.ofNat 3), field "rx_bytes" (.ofNat 4), field "tx_bytes" (.ofNat 5)]]),
    field "counters" Counters.zero.toJson]

theorem omits_quaintBare : Omits optionalMembers quaint.toJson quaintBare := by
  have hstate : field "state" .null ∈ optionalMembers := .head _
  have hserver : field "server" .null ∈ optionalMembers := .tail _ (.head _)
  have hipv6 : field "ipv6" .null ∈ optionalMembers := .tail _ (.tail _ (.tail _ (.head _)))
  have hroutes : field "routes" (.array []) ∈ optionalMembers :=
    .tail _ (.tail _ (.tail _ (.tail _ (.head _))))
  have hsession :
      OmitsItems optionalMembers (quaint.sessions.map SessionSnapshot.toJson) [.object _] :=
    .cons (.inObject (.keep _ (.same _) (.keep _ (.same _) (.omit hipv6 (.keep _ (.same _)
      (.keep _ (.same _) (.omit hroutes (.refl _)))))))) .nil
  exact .inObject (.keep _ (.same _) (.keep _ (.same _) (.omit hstate (.omit hserver
    (.keep _ (.same _) (.keep _ (.same _) (.keep _ (.inArray hsession)
      (.omit hroutes (.refl _)))))))))

theorem survives_file_bare : read? quaintBare.toText = some quaint :=
  ((survives_file quaint "/run/vtunnel.json" fun _ => none).2 quaintBare omits_quaintBare).1

end Snapshot

end PacketTunnel
