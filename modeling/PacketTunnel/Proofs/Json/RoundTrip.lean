import PacketTunnel.Json.Printer
import PacketTunnel.Json.Reader
import PacketTunnel.Proofs.Text.Numeral

/-!
# JSON values are read back

A value that is printed is read again from its text, whatever characters its strings hold, and
however deep it is. What is proved of a text is that it spells a value: it starts in a way that
tells it from a bracket that closes, and reading takes it, and no more, in front of whatever may
follow a value, with as many steps as it has characters. Spellings are put together as arrays and
objects are, and the printer only puts together spellings.
-/
namespace PacketTunnel.JsonValue

open Text

theorem fourDigits?_hexDigit : ∀ code : Fin 32,
    fourDigits? '0' '0' (Bytes.hexDigit (code / 16)) (Bytes.hexDigit (code % 16)) =
    some code.val := by
  decide

theorem assemble?_unit {code : Nat} (hfirst : isFirstHalf code = false)
    (hsecond : isSecondHalf code = false) (ps : List Piece) :
    assemble? (.unit code :: ps) = (assemble? ps).map (Char.ofNat code :: ·) := by
  match ps with
  | [] => simp [assemble?, hfirst, hsecond]
  | .char c :: rest => simp [assemble?, hfirst, hsecond]
  | .unit code' :: rest => simp [assemble?, hfirst, hsecond]

/-- A piece stands for a character: it is what the escape of the character is read as, and it spells
the character. -/
structure Piece.StandsFor (p : Piece) (c : Char) : Prop where
  read : ∀ text, pieces? (escape c ++ text) = (pieces? text).map fun read => (p :: read.1, read.2)
  spells : ∀ ps, assemble? (p :: ps) = (assemble? ps).map (c :: ·)

theorem standsFor_of_short {c e : Char} (hescape : escape c = ['\\', e]) (he : e ≠ 'u')
    (hc : shortEscape? e = some c) : (Piece.char c).StandsFor c where
  read text := by
    rw [hescape, List.cons_append, List.singleton_append, pieces?, hc]
    · cases pieces? text <;> rfl
    · rintro a b x d rest rfl
      exact absurd rfl he
  spells ps := by rw [assemble?]

theorem standsFor_of_code {c : Char} (code : Fin 32) (hcode : c.toNat = code.val)
    (hescape : escape c =
      ['\\', 'u', '0', '0', Bytes.hexDigit (code / 16), Bytes.hexDigit (code % 16)]) :
    (Piece.unit code).StandsFor c where
  read text := by
    rw [hescape]
    simp only [List.cons_append, List.nil_append]
    rw [pieces?, fourDigits?_hexDigit]
    cases pieces? text <;> rfl
  spells ps := by
    have hhalves : ∀ i : Fin 32, isFirstHalf i = false ∧ isSecondHalf i = false := by decide
    rw [assemble?_unit (hhalves code).1 (hhalves code).2, ← hcode, Char.ofNat_toNat]

theorem standsFor_of_plain {c : Char} (hescape : escape c = [c]) (hquote : c ≠ '"')
    (hbackslash : c ≠ '\\') (hc : ¬ c.toNat < 0x20) : (Piece.char c).StandsFor c where
  read text := by
    rw [hescape, List.singleton_append, pieces?, if_neg (not_or.mpr ⟨hbackslash, hc⟩)]
    · exact hquote
    · rintro a b x d rest rfl
      exact absurd rfl hbackslash
    · rintro x rest rfl
      exact absurd rfl hbackslash
  spells ps := by rw [assemble?]

theorem exists_standsFor (c : Char) : ∃ p : Piece, p.StandsFor c := by
  by_cases hshort : c ∈ ['"', '\\', Char.ofNat 8, Char.ofNat 12, '\n', '\r', '\t']
  · simp only [List.mem_cons, List.not_mem_nil, or_false] at hshort
    rcases hshort with rfl | rfl | rfl | rfl | rfl | rfl | rfl <;>
      exact ⟨_, standsFor_of_short rfl (by decide) rfl⟩
  · simp only [List.mem_cons, List.not_mem_nil, or_false, not_or] at hshort
    obtain ⟨hquote, hbackslash, h8, h12, hn, hr, ht⟩ := hshort
    by_cases hc : c.toNat < 0x20
    · refine ⟨_, standsFor_of_code ⟨c.toNat, hc⟩ rfl ?_⟩
      simp [escape, hquote, hbackslash, h8, h12, hn, hr, ht, hc]
    · refine ⟨_, standsFor_of_plain ?_ hquote hbackslash hc⟩
      simp [escape, hquote, hbackslash, h8, h12, hn, hr, ht, hc]

theorem string?_escape (text rest : List Char) :
    string? (text.flatMap escape ++ '"' :: rest) = some (some text, rest) := by
  have hpieces : ∃ ps, pieces? (text.flatMap escape ++ '"' :: rest) = some (ps, rest) ∧
      assemble? ps = some text := by
    induction text with
    | nil => exact ⟨[], rfl, rfl⟩
    | cons c text ih =>
      obtain ⟨ps, hread, hspelled⟩ := ih
      obtain ⟨p, hp⟩ := exists_standsFor c
      refine ⟨p :: ps, ?_, ?_⟩
      · rw [List.flatMap_cons, List.append_assoc, hp.read, hread]
        rfl
      · rw [hp.spells, hspelled]
        rfl
  obtain ⟨ps, hread, hspelled⟩ := hpieces
  rw [string?, hread]
  exact congrArg (fun s => some (s, rest)) hspelled

/-- What may follow a value: a comma, a new line, or nothing. -/
def Follows (rest : List Char) : Prop := ∀ c ∈ rest.head?, c = ',' ∨ c = '\n'

theorem follows_cons {c : Char} (h : c = ',' ∨ c = '\n') (rest : List Char) :
    Follows (c :: rest) := by
  intro d hd
  cases hd
  exact h

theorem follows_newLine (depth : Nat) (rest : List Char) : Follows (newLine depth ++ rest) :=
  follows_cons (.inr rfl) _

theorem Follows.stops {rest : List Char} (h : Follows rest) : Stops 10 rest := by
  intro c hc
  rcases h c hc with rfl | rfl <;> decide

theorem digits?_decimal (n : Nat) {rest : List Char} (hrest : Stops 10 rest) :
    digits? (decimal n ++ rest) = some (decimal n, rest) := by
  have hall : ∀ c ∈ decimal n, isDigit 10 c = true :=
    isDigit_of_mem_toDigits (by decide) (by decide) n
  have hempty : (decimal n).isEmpty = false := List.isEmpty_eq_false_iff.mpr Nat.toDigits_ne_nil
  rw [digits?, takeWhile_append_of_stops hall hrest, dropWhile_append_of_stops hall hrest]
  simp [hempty]

theorem head?_decimal_append (n : Nat) (rest : List Char) :
    (decimal n ++ rest).head? = (decimal n).head? := by
  rw [List.head?_append, Option.or_of_isSome (by simp [decimal])]

theorem wholePart?_decimal (n : Nat) {rest : List Char} (hrest : Stops 10 rest) :
    wholePart? (decimal n ++ rest) = some (decimal n, rest) := by
  by_cases hn : n = 0
  · subst hn
    have hdigit : rest.head?.any (isDigit 10) = false := by
      cases rest with
      | nil => rfl
      | cons c rest => exact hrest c rfl
    change wholePart? ('0' :: rest) = some (['0'], rest)
    rw [wholePart?, hdigit]
    rfl
  · rw [wholePart?, digits?_decimal n hrest]
    intro rest' heq
    have hhead : (decimal n ++ rest).head? = some '0' := congrArg List.head? heq
    rw [head?_decimal_append] at hhead
    exact head?_toDigits (by decide) (by decide) n (Nat.pos_of_ne_zero hn) hhead

theorem number?_decimal (n : Nat) {rest : List Char} (hrest : Follows rest) :
    number? (decimal n ++ rest) = some (decimal n, rest) := by
  have hall : ∀ c ∈ decimal n, isDigit 10 c = true :=
    isDigit_of_mem_toDigits (by decide) (by decide) n
  have hsigned : ∀ text, decimal n ++ rest ≠ '-' :: text := by
    intro text heq
    have hhead : (decimal n ++ rest).head? = some '-' := congrArg List.head? heq
    rw [head?_decimal_append] at hhead
    exact absurd (hall '-' (List.mem_of_head? hhead)) (by decide)
  have hfraction : fraction? rest = some ([], rest) := by
    rw [fraction?]
    rintro text rfl
    exact absurd (hrest '.' rfl) (by decide)
  have hexponent : exponent? rest = some ([], rest) := by
    cases rest with
    | nil => rfl
    | cons c rest => rcases hrest c rfl with rfl | rfl <;> rfl
  have hwhole := wholePart?_decimal n hrest.stops
  unfold number?
  split
  rename_i minus text heq
  split at heq
  · rename_i text' hminus
    exact absurd hminus (hsigned text')
  · cases heq
    simp [hwhole, hfraction, hexponent]

mutual

/-- A value that a text can state: its strings are there, and its numbers are unsigned decimals. -/
def Statable : JsonValue → Prop
  | null => True
  | bool _ => True
  | number text => ∃ n, text = decimal n
  | string text => text.isSome
  | array items => StatableItems items
  | object members => StatableMembers members

def StatableItems : List JsonValue → Prop
  | [] => True
  | item :: items => Statable item ∧ StatableItems items

def StatableMembers : List (Option (List Char) × JsonValue) → Prop
  | [] => True
  | (key, value) :: members => key.isSome ∧ Statable value ∧ StatableMembers members

end

/-- A text starts neither with a blank nor with the given bracket. -/
def Opens (bracket : Char) (text : List Char) : Prop :=
  ∃ c rest, text = c :: rest ∧ isSpace c = false ∧ c ≠ bracket

/-- A text spells a value. -/
structure Spells (text : List Char) (v : JsonValue) : Prop where
  opens : Opens ']' text
  read : ∀ fuel rest, text.length ≤ fuel → Follows rest →
    readValue fuel (text ++ rest) = some (v, rest)

structure SpellsItems (text : List Char) (items : List JsonValue) : Prop where
  opens : Opens ']' text
  read : ∀ fuel rest, text.length ≤ fuel → readItems fuel (text ++ rest) = some (items, rest)

structure SpellsMembers (text : List Char) (members : List (Option (List Char) × JsonValue)) :
    Prop where
  opens : Opens '\x7d' text
  read : ∀ fuel rest, text.length ≤ fuel → readMembers fuel (text ++ rest) = some (members, rest)

theorem skipSpace_newLine (depth : Nat) (text : List Char) :
    skipSpace (newLine depth ++ text) = skipSpace text := by
  rw [skipSpace, newLine, List.cons_append, List.dropWhile_cons_of_pos (by decide),
    List.dropWhile_append_of_pos (fun c hc => by rw [List.eq_of_mem_replicate hc]; decide),
    skipSpace]

theorem skipSpace_blank (text : List Char) : skipSpace (' ' :: text) = skipSpace text :=
  List.dropWhile_cons_of_pos (by decide)

theorem skipSpace_cons {c : Char} (h : isSpace c = false) (text : List Char) :
    skipSpace (c :: text) = c :: text :=
  List.dropWhile_cons_of_neg (by simp [h])

theorem Opens.skipSpace {bracket : Char} {text : List Char} (h : Opens bracket text)
    (rest : List Char) :
    skipSpace (text ++ rest) = text ++ rest := by
  obtain ⟨c, text, rfl, hc, -⟩ := h
  exact skipSpace_cons hc _

theorem Opens.append {bracket : Char} {text : List Char} (h : Opens bracket text)
    (rest : List Char) :
    Opens bracket (text ++ rest) := by
  obtain ⟨c, text, rfl, hc, hbracket⟩ := h
  exact ⟨c, text ++ rest, rfl, hc, hbracket⟩

theorem readValue_congr (fuel : Nat) {text text' : List Char}
    (h : skipSpace text = skipSpace text') :
    readValue fuel text = readValue fuel text' := by
  cases fuel with
  | zero => rfl
  | succ fuel => rw [readValue, readValue, h]

theorem readItems_newLine (fuel depth : Nat) (text : List Char) :
    readItems fuel (newLine depth ++ text) = readItems fuel text := by
  cases fuel with
  | zero => rfl
  | succ fuel => rw [readItems, readItems, readValue_congr fuel (skipSpace_newLine depth text)]

theorem readMembers_newLine (fuel depth : Nat) (text : List Char) :
    readMembers fuel (newLine depth ++ text) = readMembers fuel text := by
  cases fuel with
  | zero => rfl
  | succ fuel => rw [readMembers, readMembers, skipSpace_newLine]

/-- Reading a text takes a step for its first character, and the other steps are enough for the rest
of it. -/
theorem exists_succ_of_cons {c : Char} {text : List Char} {fuel : Nat}
    (h : (c :: text).length ≤ fuel) :
    ∃ f, fuel = f + 1 ∧ text.length ≤ f := by
  cases fuel with
  | zero => simp at h
  | succ f => exact ⟨f, rfl, Nat.le_of_succ_le_succ h⟩

theorem spells_null : Spells "null".toList null where
  opens := ⟨'n', "ull".toList, rfl, rfl, by decide⟩
  read fuel rest hfuel _ := by
    obtain ⟨f, rfl, -⟩ := exists_succ_of_cons hfuel
    rfl

theorem spells_bool (b : Bool) : Spells (print 0 (bool b)) (bool b) := by
  cases b with
  | false =>
    refine ⟨⟨'f', "alse".toList, rfl, rfl, by decide⟩, fun fuel rest hfuel _ => ?_⟩
    obtain ⟨f, rfl, -⟩ := exists_succ_of_cons hfuel
    rfl
  | true =>
    refine ⟨⟨'t', "rue".toList, rfl, rfl, by decide⟩, fun fuel rest hfuel _ => ?_⟩
    obtain ⟨f, rfl, -⟩ := exists_succ_of_cons hfuel
    rfl

theorem isSpace_of_isDigit {c : Char} (hc : isDigit 10 c = true) : isSpace c = false := by
  refine Bool.eq_false_iff.mpr fun hspace => ?_
  have hspaces : c = ' ' ∨ c = '\n' ∨ c = '\t' ∨ c = '\r' := by
    simpa [isSpace, or_assoc] using hspace
  rcases hspaces with rfl | rfl | rfl | rfl <;> cases hc

theorem readValue_digit (fuel : Nat) {c : Char} (hc : isDigit 10 c = true) (text : List Char) :
    readValue (fuel + 1) (c :: text) = (number? (c :: text)).map
      fun (text, rest) => (number text, rest) := by
  rw [readValue, skipSpace_cons (isSpace_of_isDigit hc)]
  split <;> first | rfl | (rename_i heq; cases heq; cases hc)

theorem spells_number (n : Nat) : Spells (decimal n) (number (decimal n)) := by
  have hall : ∀ c ∈ decimal n, isDigit 10 c = true :=
    isDigit_of_mem_toDigits (by decide) (by decide) n
  obtain ⟨c, text, htext⟩ : ∃ c text, decimal n = c :: text :=
    List.exists_cons_of_ne_nil Nat.toDigits_ne_nil
  have hc : isDigit 10 c = true := hall c (htext ▸ List.mem_cons_self)
  refine ⟨⟨c, text, htext, isSpace_of_isDigit hc, ?_⟩, fun fuel rest hfuel hrest => ?_⟩
  · rintro rfl
    cases hc
  · rw [htext] at hfuel
    obtain ⟨f, rfl, -⟩ := exists_succ_of_cons hfuel
    have hread := number?_decimal n hrest
    rw [htext, List.cons_append] at hread ⊢
    rw [readValue_digit f hc, hread]
    rfl

theorem spells_string (text : List Char) : Spells (quoted text) (string (some text)) where
  opens := ⟨'"', _, rfl, rfl, by decide⟩
  read fuel rest hfuel _ := by
    obtain ⟨f, rfl, -⟩ := exists_succ_of_cons hfuel
    have hread := string?_escape text rest
    rw [quoted, List.cons_append, List.cons_append, List.append_assoc, List.singleton_append,
      readValue, skipSpace_cons rfl]
    change (string? _).map _ = _
    rw [hread]
    rfl

theorem spells_array_nil : Spells "[]".toList (array []) where
  opens := ⟨'[', [']'], rfl, rfl, by decide⟩
  read fuel rest hfuel _ := by
    obtain ⟨f, rfl, -⟩ := exists_succ_of_cons hfuel
    rfl

theorem spells_object_nil : Spells ['\x7b', '\x7d'] (object []) where
  opens := ⟨'\x7b', ['\x7d'], rfl, rfl, by decide⟩
  read fuel rest hfuel _ := by
    obtain ⟨f, rfl, -⟩ := exists_succ_of_cons hfuel
    rfl

variable {text text' : List Char} {v : JsonValue} {items : List JsonValue}
  {members : List (Option (List Char) × JsonValue)}

theorem SpellsItems.array (h : SpellsItems text items) (depth : Nat) :
    Spells ('[' :: newLine depth ++ text) (array items) where
  opens := ⟨'[', _, rfl, rfl, by decide⟩
  read fuel rest hfuel _ := by
    obtain ⟨f, rfl, hf⟩ := exists_succ_of_cons hfuel
    replace hf : (newLine depth ++ text).length ≤ f := hf
    have hread := h.read f rest (by simp only [List.length_append] at hf; omega)
    obtain ⟨c, tail, rfl, hc, hbracket⟩ := h.opens
    rw [List.cons_append, List.cons_append, List.append_assoc, readValue, skipSpace_cons rfl]
    simp only [skipSpace_newLine, List.cons_append, skipSpace_cons hc]
    rw [List.cons_append] at hread
    split
    · rename_i heq
      exact absurd (List.cons.inj heq).1 hbracket
    · rw [hread]
      rfl

theorem SpellsMembers.object (h : SpellsMembers text members) (depth : Nat) :
    Spells ('\x7b' :: newLine depth ++ text) (object members) where
  opens := ⟨'\x7b', _, rfl, rfl, by decide⟩
  read fuel rest hfuel _ := by
    obtain ⟨f, rfl, hf⟩ := exists_succ_of_cons hfuel
    replace hf : (newLine depth ++ text).length ≤ f := hf
    have hread := h.read f rest (by simp only [List.length_append] at hf; omega)
    obtain ⟨c, tail, rfl, hc, hbracket⟩ := h.opens
    rw [List.cons_append, List.cons_append, List.append_assoc, readValue, skipSpace_cons rfl]
    simp only [skipSpace_newLine, List.cons_append, skipSpace_cons hc]
    rw [List.cons_append] at hread
    split
    · rename_i heq
      exact absurd (List.cons.inj heq).1 hbracket
    · rw [hread]
      rfl

theorem Spells.lastItem (h : Spells text v) (depth : Nat) :
    SpellsItems (text ++ (newLine depth ++ [']'])) [v] where
  opens := h.opens.append _
  read fuel rest hfuel := by
    rw [List.append_assoc, List.append_assoc, List.singleton_append]
    cases fuel with
    | zero => simp at hfuel
    | succ f =>
      have hread := h.read f (newLine depth ++ ']' :: rest) (by simp [newLine] at hfuel ⊢; omega)
        (follows_newLine depth _)
      simp only [readItems, hread, Option.bind_eq_bind, Option.bind_some, skipSpace_newLine,
        skipSpace_cons (c := ']') rfl]

theorem Spells.cons (h : Spells text v) (depth : Nat) (hitems : SpellsItems text' items) :
    SpellsItems (text ++ ',' :: (newLine depth ++ text')) (v :: items) where
  opens := h.opens.append _
  read fuel rest hfuel := by
    rw [List.append_assoc, List.cons_append, List.append_assoc]
    cases fuel with
    | zero => simp at hfuel
    | succ f =>
      simp only [List.length_append, List.length_cons] at hfuel
      have hread :=
        h.read f (',' :: (newLine depth ++ (text' ++ rest))) (by omega) (follows_cons (.inl rfl) _)
      have hfurther := hitems.read f rest (by omega)
      simp only [readItems, hread, Option.bind_eq_bind, Option.bind_some,
        skipSpace_cons (c := ',') rfl, readItems_newLine, hfurther]

/-- A key and its value, as a member starts. -/
def memberText (key text : List Char) : List Char := quoted key ++ ':' :: ' ' :: text

theorem opens_memberText (key text : List Char) : Opens '\x7d' (memberText key text) :=
  ⟨'"', _, rfl, rfl, by decide⟩

theorem skip?_memberText (key text rest : List Char) :
    skip? '"' (skipSpace (memberText key text ++ rest)) =
      some (key.flatMap escape ++ '"' :: ':' :: ' ' :: (text ++ rest)) := by
  rw [(opens_memberText key text).skipSpace]
  simp [memberText, quoted, skip?]

theorem skip?_colon (text : List Char) : skip? ':' (skipSpace (':' :: text)) = some text := rfl

theorem readValue_blank (fuel : Nat) (text : List Char) :
    readValue fuel (' ' :: text) = readValue fuel text :=
  readValue_congr fuel (skipSpace_blank text)

theorem Spells.lastMember (h : Spells text v) (key : List Char) (depth : Nat) :
    SpellsMembers (memberText key text ++ (newLine depth ++ ['\x7d'])) [(some key, v)] where
  opens := (opens_memberText key text).append _
  read fuel rest hfuel := by
    rw [List.append_assoc, List.append_assoc, List.singleton_append]
    cases fuel with
    | zero => simp at hfuel
    | succ f =>
      have hread :=
        h.read f (newLine depth ++ '\x7d' :: rest) (by simp [memberText] at hfuel; omega)
          (follows_newLine depth _)
      simp only [readMembers, skip?_memberText, string?_escape, skip?_colon, readValue_blank, hread,
        Option.bind_eq_bind, Option.bind_some, skipSpace_newLine, skipSpace_cons (c := '\x7d') rfl]

theorem Spells.consMember (h : Spells text v) (key : List Char) (depth : Nat)
    (hmembers : SpellsMembers text' members) :
    SpellsMembers (memberText key text ++ ',' :: (newLine depth ++ text'))
      ((some key, v) :: members) where
  opens := (opens_memberText key text).append _
  read fuel rest hfuel := by
    rw [List.append_assoc, List.cons_append, List.append_assoc]
    cases fuel with
    | zero => simp at hfuel
    | succ f =>
      simp only [memberText, List.length_append, List.length_cons] at hfuel
      have hread :=
        h.read f (',' :: (newLine depth ++ (text' ++ rest))) (by omega) (follows_cons (.inl rfl) _)
      have hfurther := hmembers.read f rest (by omega)
      simp only [readMembers, skip?_memberText, string?_escape, skip?_colon, readValue_blank, hread,
        Option.bind_eq_bind, Option.bind_some, skipSpace_cons (c := ',') rfl, readMembers_newLine,
        hfurther]

mutual

theorem spells_print (depth : Nat) : ∀ v : JsonValue, v.Statable → Spells (print depth v) v
  | null, _ => spells_null
  | bool false, _ => spells_bool false
  | bool true, _ => spells_bool true
  | number _, ⟨n, rfl⟩ => spells_number n
  | string (some text), _ => spells_string text
  | array [], _ => spells_array_nil
  | array (item :: items), ⟨hitem, hitems⟩ => by
    have hspells :=
      (spellsItems_print depth (depth + 1) items hitems (spells_print (depth + 1) item hitem)).array
        (depth + 1)
    simpa only [print, List.append_assoc, List.cons_append] using hspells
  | object [], _ => spells_object_nil
  | object ((some key, value) :: members), ⟨_, hvalue, hmembers⟩ => by
    have hspells := (spellsMembers_print depth (depth + 1) members hmembers key
      (spells_print (depth + 1) value hvalue)).object (depth + 1)
    simpa only [print, memberText, Option.getD_some, List.append_assoc,
      List.cons_append] using hspells

theorem spellsItems_print (close depth : Nat) : ∀ items : List JsonValue, StatableItems items →
    ∀ {text : List Char} {item : JsonValue}, Spells text item →
      SpellsItems (text ++ (printItems depth items ++ (newLine close ++ [']']))) (item :: items)
  | [], _, _, _, h => h.lastItem close
  | item :: items, ⟨hitem, hitems⟩, _, _, h => by
    have hspells :=
      h.cons depth (spellsItems_print close depth items hitems (spells_print depth item hitem))
    simpa only [printItems, List.append_assoc, List.cons_append] using hspells

theorem spellsMembers_print (close depth : Nat) : ∀ members : List (Option (List Char) × JsonValue),
    StatableMembers members → ∀ (key : List Char) {text : List Char} {value : JsonValue},
    Spells text value →
      SpellsMembers
        (memberText key text ++ (printMembers depth members ++ (newLine close ++ ['\x7d'])))
        ((some key, value) :: members)
  | [], _, key, _, _, h => h.lastMember key close
  | (some key', value) :: members, ⟨_, hvalue, hmembers⟩, key, _, _, h => by
    have hspells := h.consMember key depth
      (spellsMembers_print close depth members hmembers key' (spells_print depth value hvalue))
    simpa only [printMembers, memberText, Option.getD_some, List.append_assoc,
      List.cons_append] using hspells

end

/-- A printed value is read back. -/
theorem parse?_print {v : JsonValue} (h : v.Statable) : parse? (print 0 v) = some v := by
  have hread :=
    (spells_print 0 v h).read ((print 0 v).length + 1) [] (Nat.le_succ _) (by simp [Follows])
  rw [List.append_nil] at hread
  rw [parse?, hread]
  rfl

end PacketTunnel.JsonValue
