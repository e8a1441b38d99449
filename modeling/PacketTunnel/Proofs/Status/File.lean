import PacketTunnel.Proofs.Status.Format

/-!
# Status files while they are written

A snapshot goes to a temporary file first, and the status file changes at once when the temporary
file gets its name. So at every moment, and wherever the writing stops, the status file holds what
it held before or the whole new snapshot; and so it goes on over any number of snapshots. This takes
a temporary file that is another file. The temporary file of a path that ends in `.tmp` is the
status file itself, which is then emptied and filled while others may look at it.
-/
namespace PacketTunnel

namespace FileOperation

variable {files m : Files} {path temporary : String} {text : List Char}

theorem mem_during_write : m ∈ during files (.write path text) ↔
    m = files ∨ ∃ n ≤ text.length, m = files.put path (some (text.take n)) := by
  simp only [during, List.mem_cons, List.mem_map, List.mem_range, Nat.lt_succ_iff, eq_comm]

theorem mem_moments_append :
    ∀ (ops ops' : List FileOperation) {files : Files}, m ∈ moments files (ops ++ ops') →
    m ∈ moments files ops ∨ m ∈ moments (ops.foldl perform files) ops'
  | [], _, _, h => .inr h
  | op :: ops, ops', files, h => by
    rcases List.mem_append.mp h with h | h
    · exact .inl (List.mem_append_left _ h)
    · exact (mem_moments_append ops ops' h).imp_left (List.mem_append_right _)

theorem write_rename_atomic (hpath : temporary ≠ path)
    (hm : m ∈ moments files [.write temporary text, .rename temporary path]) :
    m path = files path ∨ m path = some text := by
  have hput : ∀ content, files.put temporary content path = files path :=
    fun content => if_neg (Ne.symm hpath)
  rcases List.mem_append.mp hm with hm | hm
  · rcases mem_during_write.mp hm with rfl | ⟨n, -, rfl⟩
    · exact .inl rfl
    · exact .inl (hput _)
  · rcases List.mem_cons.mp hm with rfl | hm
    · exact .inl (hput _)
    · rw [List.mem_singleton.mp hm]
      exact .inr (by simp [perform, Files.put])

/-- A file that is filled in its own place is seen with any part of the text. -/
theorem write_in_place (files : Files) (path : String) (text : List Char)
    (rest : List FileOperation) {n : Nat} (hn : n ≤ text.length) :
    ∃ m ∈ moments files (.write path text :: rest), m path = some (text.take n) := by
  refine ⟨files.put path (some (text.take n)),
    List.mem_append_left _ (mem_during_write.mpr (.inr ⟨n, hn, rfl⟩)), ?_⟩
  simp [Files.put]

end FileOperation

namespace StatusFile

open FileOperation

/-- A path whose last name is one of a file: it is there, and it is none of the points that stand
for directories. -/
def NamesFile (path : String) : Prop :=
  (lastName path.toList.reverse).1 ≠ [] ∧ (lastName path.toList.reverse).1 ≠ ['.', '.'] ∧
    ¬ ((lastName path.toList.reverse).1 = ['.'] ∧ (lastName path.toList.reverse).2 = [])

instance (path : String) : Decidable (NamesFile path) := inferInstanceAs (Decidable (_ ∧ _ ∧ _))

def HasTemporaryName (path : String) : Prop :=
  ∃ front c, c ≠ '/' ∧ path.toList = front ++ c :: ".tmp".toList

variable {path : String}

theorem lastName_tmp (rest : List Char) :
    lastName ('p' :: 'm' :: 't' :: '.' :: rest) =
      ('p' :: 'm' :: 't' :: '.' :: rest.takeWhile (· ≠ '/'), rest.dropWhile (· ≠ '/')) := by
  simp [lastName]

theorem stem_tmp (before : List Char) :
    stem ('p' :: 'm' :: 't' :: '.' :: before) =
      if before.isEmpty then 'p' :: 'm' :: 't' :: '.' :: before else before := by
  simp [stem]

theorem toList_temporaryPath (h : NamesFile path) :
    (temporaryPath path).toList.reverse = 'p' :: 'm' :: 't' :: '.' ::
      (stem (lastName path.toList.reverse).1 ++ (lastName path.toList.reverse).2) := by
  obtain ⟨hempty, htwo, hone⟩ := h
  rw [temporaryPath]
  simp [hempty, htwo, hone]

/-- The temporary file is the file itself exactly where the file has the name of a temporary file.
-/
theorem temporaryPath_eq_iff (h : NamesFile path) :
    temporaryPath path = path ↔ HasTemporaryName path := by
  have htemporary := toList_temporaryPath h
  constructor
  · intro heq
    rw [heq] at htemporary
    generalize hrest : stem (lastName path.toList.reverse).1 ++ (lastName path.toList.reverse).2 =
      rest at htemporary
    rw [htemporary, lastName_tmp, stem_tmp] at hrest
    have hsome : rest.takeWhile (· ≠ '/') ≠ [] := by
      intro htake
      have hsplit := List.takeWhile_append_dropWhile (p := (· ≠ '/')) (l := rest)
      rw [htake, List.nil_append] at hsplit
      rw [htake, hsplit] at hrest
      have hlength := congrArg List.length hrest
      simp at hlength
      omega
    cases rest with
    | nil => exact absurd rfl hsome
    | cons c rest =>
      refine ⟨rest.reverse, c, fun hc => hsome (List.takeWhile_cons_of_neg (by simp [hc])), ?_⟩
      rw [← List.reverse_inj, htemporary]
      simp
  · rintro ⟨front, c, hc, hpath⟩
    have hreverse : path.toList.reverse = 'p' :: 'm' :: 't' :: '.' :: c :: front.reverse := by
      simp [hpath]
    have htake : (c :: front.reverse).takeWhile (· ≠ '/') =
        c :: front.reverse.takeWhile (· ≠ '/') :=
      List.takeWhile_cons_of_pos (by simpa using hc)
    rw [hreverse, lastName_tmp, stem_tmp, htake, List.isEmpty_cons, if_neg Bool.false_ne_true,
      ← htake, List.takeWhile_append_dropWhile, ← hreverse] at htemporary
    exact String.toList_inj.mp (List.reverse_inj.mp htemporary)

theorem exists_write_eq_cons (s : Snapshot) : ∃ c d text, s.write.toList = c :: d :: text :=
  ⟨'\x7b', '\n', _, by rw [Snapshot.write, JsonValue.toText, String.toList_ofList]; rfl⟩

/-- Writing a snapshot is atomic, whatever the file holds before and wherever the writing stops,
exactly if the file does not have the name of a temporary file: at every moment the file holds what
it held, or the whole snapshot. -/
theorem write_atomic_iff (h : NamesFile path) (files : Files) (s : Snapshot) :
    (∀ m ∈ moments files (operations path s), m path = files path ∨ m path = some s.write.toList) ↔
      ¬ HasTemporaryName path := by
  rw [← temporaryPath_eq_iff h]
  constructor
  · intro hatomic heq
    rw [operations, heq] at hatomic
    -- The file is empty, and then it holds one character. Both cannot be what it held, and neither
    -- is a snapshot.
    obtain ⟨m, hm, hempty⟩ :=
      write_in_place files path s.write.toList [.rename path path] (Nat.zero_le _)
    obtain ⟨c, d, text, htext⟩ := exists_write_eq_cons s
    obtain ⟨m', hm', hone⟩ :=
      write_in_place files path s.write.toList [.rename path path] (n := 1) (by simp [htext])
    have hold := hatomic m hm
    have hold' := hatomic m' hm'
    rw [hempty, htext] at hold
    rw [hone, htext] at hold'
    grind
  · exact fun hne m hm => write_rename_atomic hne hm

theorem write_atomic_iff_json :
    NamesFile "/run/vtunnel.json" ∧
      ∀ m ∈ moments (fun _ => some "old".toList) (operations "/run/vtunnel.json" .quaint),
        m "/run/vtunnel.json" = some "old".toList ∨
        m "/run/vtunnel.json" = some Snapshot.quaint.write.toList := by
  have hfile : NamesFile "/run/vtunnel.json" := by decide
  have hname : ¬ HasTemporaryName "/run/vtunnel.json" := by
    rintro ⟨front, c, -, hpath⟩
    have hlast := congrArg List.getLast? hpath
    simp at hlast
  exact ⟨hfile, (write_atomic_iff hfile (fun _ => some "old".toList) .quaint).mpr hname⟩

/-- The file is seen empty while it is written in its own place. -/
theorem temporaryName_seen_empty :
    ∃ m ∈ moments (fun _ => some "old".toList) (operations "/run/vtunnel.tmp" .quaint),
      m "/run/vtunnel.tmp" ≠ some "old".toList ∧
      m "/run/vtunnel.tmp" ≠ some Snapshot.quaint.write.toList := by
  have hpath : temporaryPath "/run/vtunnel.tmp" = "/run/vtunnel.tmp" :=
    (temporaryPath_eq_iff (by decide)).mpr ⟨"/run/vtunne".toList, 'l', by decide, by decide⟩
  obtain ⟨m, hm, hempty⟩ :=
    write_in_place (fun _ => some "old".toList) "/run/vtunnel.tmp" Snapshot.quaint.write.toList
      [.rename "/run/vtunnel.tmp" "/run/vtunnel.tmp"] (Nat.zero_le _)
  obtain ⟨c, d, text, htext⟩ := exists_write_eq_cons .quaint
  refine ⟨m, by rwa [operations, hpath], ?_, ?_⟩
  · rw [hempty]
    decide
  · rw [hempty, htext]
    simp

/-- However many snapshots are written after each other, the file holds what it held at first, or
one of them. -/
theorem writes_atomic (hpath : temporaryPath path ≠ path) :
    ∀ (snapshots : List Snapshot) {files m : Files},
    m ∈ moments files (snapshots.flatMap (operations path)) →
      m path = files path ∨ ∃ s ∈ snapshots, m path = some s.write.toList
  | [], files, m, hm => .inl (congrFun (List.mem_singleton.mp hm) path)
  | s :: snapshots, files, m, hm => by
    rcases mem_moments_append (operations path s) _ hm with hm | hm
    · exact (write_rename_atomic hpath hm).imp_right fun h => ⟨s, List.mem_cons_self, h⟩
    · rcases writes_atomic hpath snapshots hm with h | ⟨s', hs', h⟩
      · exact .inr ⟨s, List.mem_cons_self, h.trans (s.perform_operations path files)⟩
      · exact .inr ⟨s', List.mem_cons_of_mem _ hs', h⟩

end StatusFile

end PacketTunnel
