import PacketTunnel.Proofs.Address.ShortText

/-!
# Version 6 in text

The text of an address, with something after it that cannot belong to an address, is read as that
address, and what comes after it is left. This rests on two facts. The run that printing leaves out
is a run of zero groups within the eight, and no group in hexadecimal is taken for the start of a
version 4 address, since no point follows it. The text of an address has at most forty characters.
-/
namespace PacketTunnel

open Text

namespace IPv6

theorem length_groups (a : IPv6) : a.groups.length = 8 := rfl

theorem lt_of_mem_groups {a : IPv6} {g : Nat} (h : g ∈ a.groups) : g < 65536 := by
  obtain ⟨i, -, rfl⟩ := List.mem_map.mp h
  exact Nat.mod_lt _ (by decide)

theorem ofGroups_groups (a : IPv6) : ofGroups a.groups = a := by
  apply BitVec.eq_of_toNat_eq
  have hlt := a.isLt
  simp only [ofGroups, groups, List.map_cons, List.map_nil, List.foldl_cons, List.foldl_nil,
    BitVec.toNat_ofNat, Nat.shiftRight_eq_div_pow]
  omega

/-- Groups in hexadecimal, each with a colon before it, the very first apart if `first` holds. -/
def colonGroups : Bool → List Nat → List Char
  | _, [] => []
  | true, g :: gs => hexadecimal g ++ colonGroups false gs
  | false, g :: gs => ':' :: (hexadecimal g ++ colonGroups false gs)

theorem groupChars_eq (gs : List Nat) : groupChars gs = colonGroups true gs := by
  have hrest (g : Nat) (gs : List Nat) : groupChars (g :: gs) = hexadecimal g ++
      colonGroups false gs := by
    induction gs generalizing g with
    | nil => simp [groupChars, colonGroups]
    | cons g' gs ih =>
      rw [colonGroups, ← ih g']
      simp [groupChars, List.intercalate]
  cases gs with
  | nil => rfl
  | cons g gs => exact hrest g gs

theorem length_hexadecimal_le {g : Nat} (h : g < 65536) : (hexadecimal g).length ≤ 4 :=
  (Nat.length_toDigits_le_iff (by decide) (by decide)).mpr h

theorem length_colonGroups_le (first : Bool) {gs : List Nat} (h : ∀ g ∈ gs, g < 65536) :
    (colonGroups first gs).length ≤ 5 * gs.length := by
  induction gs generalizing first with
  | nil => simp [colonGroups]
  | cons g gs ih =>
    have hg := length_hexadecimal_le (h g (by simp))
    have hgs := ih false fun g' hg' => h g' (by simp [hg'])
    cases first <;> simp only [colonGroups, List.length_append, List.length_cons] <;> omega

theorem isAddressChar_of_mem_colonGroups (first : Bool) (gs : List Nat) :
    ∀ c ∈ colonGroups first gs, isAddressChar c = true := by
  have hdigit (g : Nat) : ∀ c ∈ hexadecimal g, isAddressChar c = true := fun c hc =>
    isAddressChar_of_isDigit (by decide) (isDigit_of_mem_toDigits (by decide) (by decide) g c hc)
  induction gs generalizing first with
  | nil =>
    intro c hc
    cases hc
  | cons g gs ih =>
    intro c hc
    cases first with
    | true =>
      rw [colonGroups, List.mem_append] at hc
      exact hc.elim (hdigit g c) (ih false c)
    | false =>
      rw [colonGroups, List.mem_cons, List.mem_append] at hc
      rcases hc with rfl | hc | hc
      · decide
      · exact hdigit g c hc
      · exact ih false c hc

theorem number?_hexadecimal {g : Nat} (h : g < 65536) {rest : List Char} (hrest : Stops 16 rest) :
    number? groupField (hexadecimal g ++ rest) = some (g, rest) := by
  have hdigits : ∀ k ∈ groupField.maxDigits, (hexadecimal g).length ≤ k := by
    intro k hk
    cases hk
    exact length_hexadecimal_le h
  have hbase : groupField.base ≤ 16 := by decide
  exact number?_toDigits (by decide) hbase hdigits h hrest

/-- What may follow a group: no digit and no point. -/
structure EndsGroup (rest : List Char) : Prop where
  stops : Stops 16 rest
  point : rest.head? ≠ some '.'

theorem endsGroup_colon (text : List Char) : EndsGroup (':' :: text) where
  stops c hc := by
    cases hc
    decide
  point := by simp

theorem endsGroup_of_endsAddress {rest : List Char} (h : EndsAddress rest) : EndsGroup rest where
  stops := h.stops
  point hc := absurd (h '.' hc) (by decide)

theorem endsGroup_colonGroups (gs : List Nat) {rest : List Char} (h : EndsGroup rest) :
    EndsGroup (colonGroups false gs ++ rest) := by
  cases gs with
  | nil => exact h
  | cons g gs => exact endsGroup_colon _

/-- Groups that were written are read one by one, and the reader goes on where they end. -/
theorem readGroups_colonGroups (limit : Nat) (first : Bool) {gs : List Nat}
    (hgs : ∀ g ∈ gs, g < 65536) {rest : List Char} (hrest : EndsGroup rest) :
    readGroups (gs.length + limit) first (colonGroups first gs ++ rest) =
      (gs ++ (readGroups limit (first && gs.isEmpty) rest).1,
        (readGroups limit (first && gs.isEmpty) rest).2) := by
  induction gs generalizing first with
  | nil => simp [colonGroups]
  | cons g gs ih =>
    have hg : g < 65536 := hgs g (by simp)
    have hnext := endsGroup_colonGroups gs hrest
    have hseparated : separated? first (colonGroups first (g :: gs) ++ rest) =
        some (hexadecimal g ++ (colonGroups false gs ++ rest)) := by
      cases first <;> simp [separated?, skip?, colonGroups]
    have hnone : IPv4.read? (hexadecimal g ++ (colonGroups false gs ++ rest)) = none :=
      IPv4.read?_eq_none (isDigit_of_mem_toDigits (by decide) (by decide) g) hnext.stops hnext.point
    have hlength : (g :: gs).length + limit = gs.length + limit + 1 := by
      rw [List.length_cons, Nat.add_right_comm]
    have hgroups := ih false fun g' hg' => hgs g' (by simp [hg'])
    rw [hlength]
    simp only [readGroups, hseparated, Option.bind_some, hnone, ite_self,
      number?_hexadecimal hg hnext.stops, hgroups, Bool.false_and, List.isEmpty_cons,
      Bool.and_false, List.cons_append]

theorem readGroups_of_stops (limit : Nat) {first : Bool} {text : List Char}
    (h : ∀ text', separated? first text = some text' → Stops 16 text') :
    readGroups limit first text = ([], false, text) := by
  cases limit with
  | zero => rfl
  | succ limit =>
    have hnone : (separated? first text).bind IPv4.read? = none := by
      cases hs : separated? first text with
      | none => rfl
      | some text' =>
        have hnumber : number? IPv4.numberField text' = none :=
          number?_eq_none (stops_decimal (h text' hs))
        simp [IPv4.read?, hnumber]
    have hgroup : (separated? first text).bind (number? groupField) = none := by
      cases hs : separated? first text with
      | none => rfl
      | some text' => exact number?_eq_none (h text' hs)
    simp only [readGroups, hnone, hgroup, ite_self]

/-- A version 4 address stands for two groups where there is room for them. -/
theorem readGroups_ipv4 (limit : Nat) (low : IPv4) {rest : List Char} (hrest : Stops 10 rest) :
    readGroups (limit + 2) false (':' :: (low.toChars ++ rest)) =
      ([low.toNat / 65536, low.toNat % 65536], true, rest) := by
  simp only [readGroups, separated?, skip?, Bool.false_eq_true, if_false, if_true, Option.bind_some,
    IPv4.read?_toChars low hrest, Nat.zero_lt_succ]

structure IsRun (gs : List Nat) (run : ZeroRun) : Prop where
  within : run.start + run.length ≤ gs.length
  zero : ∀ i, run.start ≤ i → i < run.start + run.length → gs[i]? = some 0

theorem IsRun.append {gs : List Nat} {run : ZeroRun} (h : IsRun gs run) (g : Nat) :
    IsRun (gs ++ [g]) run where
  within := by
    have hwithin := h.within
    rw [List.length_append, List.length_singleton]
    omega
  zero i hi hlt := by
    have hwithin := h.within
    rw [List.getElem?_append_left (by omega)]
    exact h.zero i hi hlt

/-- What the search for the longest run does with one group: the best run so far, and the run that
ends here. -/
def runStep (s : ZeroRun × ZeroRun) (g : Nat × Nat) : ZeroRun × ZeroRun :=
  if g.1 = 0 then
    let run : ZeroRun := ⟨if s.2.length = 0 then g.2 else s.2.start, s.2.length + 1⟩
    (if s.1.length < run.length then run else s.1, run)
  else (s.1, ⟨0, 0⟩)

/-- What the search knows once it has seen some groups. -/
structure Searched (gs : List Nat) (s : ZeroRun × ZeroRun) : Prop where
  best : IsRun gs s.1
  current : IsRun gs s.2
  ending : s.2.length ≠ 0 → s.2.start + s.2.length = gs.length

theorem isRun_empty (gs : List Nat) : IsRun gs ⟨0, 0⟩ :=
  ⟨Nat.zero_le _, fun _ _ hlt => absurd hlt (Nat.not_lt_zero _)⟩

theorem Searched.step {gs : List Nat} {s : ZeroRun × ZeroRun} (h : Searched gs s) (g : Nat) :
    Searched (gs ++ [g]) (runStep s (g, gs.length)) := by
  by_cases hg : g = 0
  · subst hg
    -- The run that ends with this zero is longer by one than the run before it.
    have hrun :
        IsRun (gs ++ [0]) ⟨if s.2.length = 0 then gs.length else s.2.start, s.2.length + 1⟩ := by
      have hending := h.ending
      refine ⟨?_, fun i hi hlt => ?_⟩
      · rw [List.length_append, List.length_singleton]
        dsimp only
        split <;> omega
      · dsimp only at hi hlt
        by_cases hlast : i = gs.length
        · rw [hlast, List.getElem?_concat_length]
        · have hbefore : i < gs.length := by split at hlt <;> omega
          rw [List.getElem?_append_left hbefore]
          refine h.current.zero i ?_ ?_ <;> split at hi <;> omega
    refine ⟨?_, ?_, ?_⟩
    · simp only [runStep, if_true]
      split
      · exact hrun
      · exact h.best.append 0
    · exact hrun
    · intro _
      have hending := h.ending
      simp only [runStep, if_true, List.length_append, List.length_singleton]
      split <;> omega
  · simp only [runStep, hg, if_false]
    exact ⟨h.best.append g, isRun_empty _, fun hlength => absurd rfl hlength⟩

theorem Searched.run {gs : List Nat} {s : ZeroRun × ZeroRun} (h : Searched gs s) (gs' : List Nat) :
    Searched (gs ++ gs') ((gs'.zipIdx gs.length).foldl runStep s) := by
  induction gs' generalizing gs s with
  | nil =>
    rw [List.append_nil]
    exact h
  | cons g gs' ih =>
    have hrest := ih (h.step g)
    rw [List.append_assoc, List.length_append, List.length_singleton] at hrest
    exact hrest

/-- The run that printing leaves out is one of zeros. -/
theorem isRun_longestRun (gs : List Nat) : IsRun gs (longestRun gs) := by
  have hstart : Searched [] (⟨0, 0⟩, ⟨0, 0⟩) :=
    ⟨isRun_empty _, isRun_empty _, fun hlength => absurd rfl hlength⟩
  exact (hstart.run gs).best

/-- Zeros in the place of a run of zeros restore the groups. -/
theorem IsRun.restore {gs : List Nat} {run : ZeroRun} (h : IsRun gs run) :
    gs.take run.start ++ List.replicate run.length 0 ++ gs.drop (run.start + run.length) = gs := by
  have hwithin := h.within
  have hzeros : List.replicate run.length 0 = (gs.drop run.start).take run.length := by
    apply List.ext_getElem?
    intro i
    rw [List.getElem?_replicate, List.getElem?_take, List.getElem?_drop]
    by_cases hi : i < run.length
    · rw [if_pos hi, if_pos hi, h.zero _ (by omega) (by omega)]
    · rw [if_neg hi, if_neg hi]
  rw [hzeros, List.append_assoc, ← List.drop_drop, List.take_append_drop, List.take_append_drop]

theorem ofGroups_mapped {a : IPv6} {low : IPv4} (h : mapped? a = some low) :
    ofGroups (List.replicate 5 0 ++ [0xffff, low.toNat / 65536, low.toNat % 65536]) = a := by
  rw [mapped?] at h
  split at h
  · rename_i hhigh
    cases h
    apply BitVec.eq_of_toNat_eq
    have hlt := a.isLt
    rw [Nat.shiftRight_eq_div_pow] at hhigh
    simp only [ofGroups, BitVec.toNat_ofNat, List.replicate, List.cons_append, List.nil_append,
      List.foldl_cons, List.foldl_nil]
    omega
  · cases h

theorem readGroups_colons (limit : Nat) (first : Bool) (text : List Char) :
    readGroups limit first (':' :: ':' :: text) = ([], false, ':' :: ':' :: text) := by
  apply readGroups_of_stops
  intro text' htext'
  cases first <;> cases htext' <;> exact (endsGroup_colon _).stops

theorem readGroups_of_endsAddress (limit : Nat) (first : Bool) {rest : List Char}
    (hrest : EndsAddress rest) :
    readGroups limit first rest = ([], false, rest) := by
  apply readGroups_of_stops
  intro text' htext'
  cases first with
  | true =>
    cases htext'
    exact hrest.stops
  | false =>
    have hskip : skip? ':' rest = none := skip?_of_head? fun hc => absurd (hrest ':' hc) (by decide)
    cases hskip.symm.trans htext'

theorem read?_mapped (low : IPv4) {rest : List Char} (hrest : EndsAddress rest) :
    read? ("::ffff:".toList ++ low.toChars ++ rest) =
      some (ofGroups (List.replicate 5 0 ++ [0xffff, low.toNat / 65536, low.toNat % 65536]),
        rest) := by
  have htext : "::ffff:".toList ++ low.toChars ++ rest =
      ':' :: ':' :: (colonGroups true [0xffff] ++ ':' :: (low.toChars ++ rest)) := by
    have hletters : "::ffff:".toList = ':' :: ':' :: (colonGroups true [0xffff] ++ [':']) := by
      decide
    rw [hletters]
    simp only [List.cons_append, List.append_assoc, List.nil_append]
  have htail := readGroups_colonGroups 6 true (show ∀ g ∈ [0xffff], g < 65536 by simp)
    (endsGroup_colon (low.toChars ++ rest))
  rw [List.isEmpty_cons, Bool.and_false, readGroups_ipv4 4 low (stops_decimal hrest.stops)] at htail
  change readGroups 7 true _ = _ at htail
  rw [htext, read?, readGroups_colons]
  simp [htail]

theorem read?_compressed {head tail : List Nat} (hhead : ∀ g ∈ head, g < 65536)
    (htail : ∀ g ∈ tail, g < 65536) (hroom : head.length + tail.length + 2 ≤ 8) {rest : List Char}
    (hrest : EndsAddress rest) :
    read? (colonGroups true head ++ ':' :: ':' :: (colonGroups true tail ++ rest)) =
      some (ofGroups (head ++ List.replicate (8 - head.length - tail.length) 0 ++ tail), rest) := by
  have hbefore := readGroups_colonGroups (8 - head.length) true hhead
    (endsGroup_colon (':' :: (colonGroups true tail ++ rest)))
  have hafter := readGroups_colonGroups (7 - head.length - tail.length) true htail
    (endsGroup_of_endsAddress hrest)
  rw [readGroups_colons, List.append_nil, show head.length + (8 - head.length) =
    8 by omega] at hbefore
  rw [readGroups_of_endsAddress _ _ hrest, List.append_nil,
    show tail.length + (7 - head.length - tail.length) = 7 - head.length by omega] at hafter
  have hshort : head.length ≠ 8 := by omega
  rw [read?, hbefore]
  simp only [hshort, if_false, Bool.false_eq_true, hafter]

theorem read?_full {gs : List Nat} (hgs : ∀ g ∈ gs, g < 65536) (hlength : gs.length = 8)
    {rest : List Char} (hrest : EndsAddress rest) :
    read? (colonGroups true gs ++ rest) = some (ofGroups gs, rest) := by
  have hgroups := readGroups_colonGroups 0 true hgs (endsGroup_of_endsAddress hrest)
  rw [readGroups_of_endsAddress _ _ hrest, List.append_nil, Nat.add_zero, hlength] at hgroups
  rw [read?, hgroups]
  simp only [hlength, if_true]

theorem toChars_cases (a : IPv6) :
    (∃ low, mapped? a = some low ∧ a.toChars = "::ffff:".toList ++ low.toChars) ∨
    (∃ head tail, a.toChars = colonGroups true head ++ ':' :: ':' :: colonGroups true tail ∧
      head.length + tail.length + 2 ≤ 8 ∧
      a.groups = head ++ List.replicate (8 - head.length - tail.length) 0 ++ tail) ∨
    a.toChars = colonGroups true a.groups := by
  cases hmapped : mapped? a with
  | some low => exact .inl ⟨low, rfl, by rw [toChars, hmapped]⟩
  | none =>
    have hrun := isRun_longestRun a.groups
    have hwithin := hrun.within
    rw [length_groups] at hwithin
    rw [toChars, hmapped]
    dsimp only
    split
    · rename_i hlong
      have hhead : (a.groups.take (longestRun a.groups).start).length =
          (longestRun a.groups).start := by
        rw [List.length_take, length_groups]
        omega
      have htail :
          (a.groups.drop ((longestRun a.groups).start + (longestRun a.groups).length)).length =
          8 - ((longestRun a.groups).start + (longestRun a.groups).length) := by
        rw [List.length_drop, length_groups]
      have hzeros :
          8 - (longestRun a.groups).start - (8 - ((longestRun a.groups).start +
            (longestRun a.groups).length)) = (longestRun a.groups).length := by omega
      refine .inr (.inl ⟨_, _, by rw [groupChars_eq, groupChars_eq], ?_, ?_⟩)
      · rw [hhead, htail]
        omega
      · rw [hhead, htail, hzeros]
        exact hrun.restore.symm
    · exact .inr (.inr (groupChars_eq _))

theorem read?_toChars (a : IPv6) {rest : List Char} (hrest : EndsAddress rest) :
    read? (a.toChars ++ rest) = some (a, rest) := by
  rcases toChars_cases a with ⟨low, hmapped, htext⟩ | ⟨head, tail, htext, hroom, hgroups⟩ | htext
  · rw [htext, read?_mapped low hrest, ofGroups_mapped hmapped]
  · have hsmall : ∀ g ∈ head ++ List.replicate (8 - head.length - tail.length) 0 ++ tail,
        g < 65536 := by
      rw [← hgroups]
      exact fun g => lt_of_mem_groups
    have hread := read?_compressed (fun g hg => hsmall g (by simp [hg]))
      (fun g hg => hsmall g (by simp [hg])) hroom hrest
    rw [← hgroups, ofGroups_groups] at hread
    rw [htext, List.append_assoc, List.cons_append, List.cons_append, hread]
  · rw [htext, read?_full (fun g => lt_of_mem_groups) (length_groups a) hrest, ofGroups_groups]

theorem parse?_toChars (a : IPv6) : parse? a.toChars = some a := by
  have hread := read?_toChars a endsAddress_nil
  rw [List.append_nil] at hread
  rw [parse?, hread]

theorem exists_of_readGroups (limit : Nat) (first : Bool) (text : List Char) :
    ∃ spelled, text = spelled ++ (readGroups limit first text).2.2 ∧ ∀ c ∈ spelled,
      isAddressChar c = true := by
  induction limit generalizing first text with
  | zero => exact ⟨[], rfl, by simp⟩
  | succ limit ih =>
    have hseparator {text' : List Char} (h : separated? first text = some text') :
        ∃ colon, text = colon ++ text' ∧ ∀ c ∈ colon, isAddressChar c = true := by
      cases first with
      | true =>
        cases h
        exact ⟨[], rfl, by simp⟩
      | false =>
        refine ⟨[':'], eq_of_skip? h, fun c hc => ?_⟩
        cases List.mem_singleton.mp hc
        decide
    rw [readGroups]
    split
    · rename_i low rest hlow
      split at hlow
      · obtain ⟨text', htext', hread⟩ := Option.bind_eq_some_iff.mp hlow
        obtain ⟨colon, rfl, hcolon⟩ := hseparator htext'
        obtain ⟨spelled, rfl, hspelled⟩ := IPv4.exists_of_read? hread
        refine ⟨colon ++ spelled, by simp, ?_⟩
        intro c hc
        rcases List.mem_append.mp hc with hc | hc
        · exact hcolon c hc
        · rcases hspelled c hc with hdigit | rfl
          · exact isAddressChar_of_isDigit (by decide) hdigit
          · decide
      · cases hlow
    · split
      · rename_i g rest hgroup
        obtain ⟨text', htext', hnumber⟩ := Option.bind_eq_some_iff.mp hgroup
        obtain ⟨colon, rfl, hcolon⟩ := hseparator htext'
        obtain ⟨digits, rfl, hdigits, -⟩ := exists_of_number? hnumber
        obtain ⟨spelled, hrest, hspelled⟩ := ih false rest
        refine ⟨colon ++ (digits ++ spelled), ?_, ?_⟩
        · rw [List.append_assoc, List.append_assoc, ← hrest]
        · intro c hc
          simp only [List.mem_append] at hc
          rcases hc with hc | hc | hc
          · exact hcolon c hc
          · exact isAddressChar_of_isDigit (by decide) (hdigits c hc)
          · exact hspelled c hc
      · exact ⟨[], rfl, by simp⟩

theorem mem_of_parse? {text : List Char} {a : IPv6} (h : parse? text = some a) :
    ∀ c ∈ text, isAddressChar c = true := by
  obtain ⟨head, htext, hhead⟩ := exists_of_readGroups 8 true text
  have hread : ∃ a', read? text = some (a', []) := by
    rw [parse?] at h
    split at h
    · rename_i a' hread
      exact ⟨a', hread⟩
    · cases h
  obtain ⟨a', hread⟩ := hread
  rw [read?] at hread
  generalize readGroups 8 true text = found at hread htext
  obtain ⟨gs, ended, rest⟩ := found
  simp only at hread htext
  split at hread
  · cases hread
    rwa [htext, List.append_nil]
  · split at hread
    · cases hread
    · split at hread
      · rename_i rest'
        obtain ⟨tail, htail, hspelled⟩ := exists_of_readGroups (7 - gs.length) true rest'
        have hend : (readGroups (7 - gs.length) true rest').2.2 = [] :=
          congrArg Prod.snd (Option.some.inj hread)
        rw [hend, List.append_nil] at htail
        intro c hc
        rw [htext, List.mem_append, List.mem_cons, List.mem_cons] at hc
        rcases hc with hc | rfl | rfl | hc
        · exact hhead c hc
        · decide
        · decide
        · exact hspelled c (htail ▸ hc)
      · cases hread

theorem colon_mem_toChars (a : IPv6) : ':' ∈ a.toChars := by
  rcases toChars_cases a with ⟨low, -, htext⟩ | ⟨head, tail, htext, -, -⟩ | htext
  · rw [htext, List.mem_append]
    exact .inl (by decide)
  · rw [htext]
    simp
  · rw [htext]
    simp [groups, colonGroups]

theorem isAddressChar_of_mem_toChars {a : IPv6} : ∀ c ∈ a.toChars, isAddressChar c = true := by
  intro c hc
  rcases toChars_cases a with ⟨low, -, htext⟩ | ⟨head, tail, htext, -, -⟩ | htext
  · rw [htext, List.mem_append] at hc
    cases hc with
    | inl hc =>
      have hall : "::ffff:".toList.all isAddressChar = true := by decide
      exact List.all_eq_true.mp hall c hc
    | inr hc => exact IPv4.isAddressChar_of_mem_toChars c hc
  · rw [htext, List.mem_append, List.mem_cons, List.mem_cons] at hc
    rcases hc with hc | rfl | rfl | hc
    · exact isAddressChar_of_mem_colonGroups true head c hc
    · decide
    · decide
    · exact isAddressChar_of_mem_colonGroups true tail c hc
  · rw [htext] at hc
    exact isAddressChar_of_mem_colonGroups true _ c hc

theorem length_toChars_le (a : IPv6) : a.toChars.length ≤ 40 := by
  rcases toChars_cases a with ⟨low, -, htext⟩ | ⟨head, tail, htext, hroom, hgroups⟩ | htext
  · have hlow := low.length_toChars_le
    rw [htext, List.length_append, show "::ffff:".toList.length = 7 by decide]
    omega
  · have hsmall : ∀ g ∈ head ++ List.replicate (8 - head.length - tail.length) 0 ++ tail,
        g < 65536 := by
      rw [← hgroups]
      exact fun g => lt_of_mem_groups
    have hhead := length_colonGroups_le true fun g (hg : g ∈ head) => hsmall g (by simp [hg])
    have htail := length_colonGroups_le true fun g (hg : g ∈ tail) => hsmall g (by simp [hg])
    rw [htext, List.length_append, List.length_cons, List.length_cons]
    omega
  · have hgroups := length_colonGroups_le true fun g (hg : g ∈ a.groups) => lt_of_mem_groups hg
    rw [length_groups] at hgroups
    rw [htext]
    omega

end IPv6

end PacketTunnel
