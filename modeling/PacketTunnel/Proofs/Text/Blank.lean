import PacketTunnel.Text.Blank

/-!
# Blanks and separators put in and taken out

A text that neither starts nor ends with a blank comes back from any blanks around it. A text is cut
at its first separator exactly when it is what stands before it, the separator, and the rest. The
length in bytes adds up over parts, and where every character takes one byte it is the number of
characters.
-/
namespace PacketTunnel.Text

def AllBlank (text : List Char) : Prop := ∀ c ∈ text, isBlank c = true

instance (text : List Char) : Decidable (AllBlank text) :=
  decidable_of_iff (text.all isBlank = true) List.all_eq_true

structure Trimmed (text : List Char) : Prop where
  first : ∀ c ∈ text.head?, isBlank c = false
  last : ∀ c ∈ text.getLast?, isBlank c = false

theorem Trimmed.of_forall {text : List Char} (h : ∀ c ∈ text, isBlank c = false) :
    Trimmed text where
  first c hc := h c (List.mem_of_head? hc)
  last c hc := h c (List.mem_of_getLast? hc)

theorem trimLeft_append {blanks text : List Char} (hblanks : AllBlank blanks)
    (htext : ∀ c ∈ text.head?, isBlank c = false) : trimLeft (blanks ++ text) = text := by
  rw [trimLeft, List.dropWhile_append_of_pos hblanks]
  cases text with
  | nil => rfl
  | cons c rest =>
    rw [List.dropWhile_cons_of_neg]
    simp [htext c rfl]

theorem trimLeft_of_allBlank {blanks : List Char} (h : AllBlank blanks) : trimLeft blanks = [] := by
  have hnil : trimLeft (blanks ++ []) = [] := trimLeft_append h (by simp)
  rwa [List.append_nil] at hnil

theorem trim_append {before text after : List Char} (hbefore : AllBlank before)
    (hafter : AllBlank after) (htext : Trimmed text) : trim (before ++ (text ++ after)) = text := by
  have hreverse : AllBlank after.reverse := fun c hc => hafter c (List.mem_reverse.mp hc)
  cases text with
  | nil =>
    have hall : AllBlank (before ++ ([] ++ after)) := by
      intro c hc
      rw [List.nil_append, List.mem_append] at hc
      exact hc.elim (hbefore c) (hafter c)
    rw [trim, trimLeft_of_allBlank hall]
    rfl
  | cons c rest =>
    have hlast : ∀ d ∈ (c :: rest).reverse.head?, isBlank d = false := by
      intro d hd
      rw [List.head?_reverse] at hd
      exact htext.last d hd
    rw [trim, trimLeft_append hbefore, List.reverse_append, trimLeft_append hreverse hlast,
      List.reverse_reverse]
    intro d hd
    exact htext.first d (by simpa using hd)

theorem splitFirst?_eq_some_iff {separator : Char} {text left right : List Char} :
    splitFirst? separator text = some (left, right) ↔ text = left ++ separator :: right ∧
      separator ∉ left := by
  induction text generalizing left with
  | nil => simp [splitFirst?]
  | cons c rest ih =>
    by_cases hc : c = separator
    · subst hc
      cases left with
      | nil => simp [splitFirst?, eq_comm]
      | cons d left => simp [splitFirst?]; grind
    · cases left with
      | nil => simp [splitFirst?, hc]
      | cons d left =>
        simp only [splitFirst?, hc, if_false, Option.map_eq_some_iff, Prod.exists, Prod.mk.injEq,
          List.cons.injEq, List.cons_append, List.mem_cons]
        constructor
        · rintro ⟨l, r, hsplit, ⟨rfl, rfl⟩, rfl⟩
          obtain ⟨htext, hnot⟩ := ih.mp hsplit
          exact ⟨⟨rfl, htext⟩, by grind⟩
        · rintro ⟨⟨rfl, htext⟩, hnot⟩
          exact ⟨left, right, ih.mpr ⟨htext, by grind⟩, ⟨rfl, rfl⟩, rfl⟩

theorem splitFirst?_append {separator : Char} {left : List Char} (h : separator ∉ left)
    (right : List Char) :
    splitFirst? separator (left ++ separator :: right) = some (left, right) :=
  splitFirst?_eq_some_iff.mpr ⟨rfl, h⟩

theorem splitLast?_eq_some_iff {separator : Char} {text left right : List Char} :
    splitLast? separator text = some (left, right) ↔ text = left ++ separator :: right ∧
      separator ∉ right := by
  have hreverse : text.reverse = right.reverse ++ separator :: left.reverse ↔
      text = left ++ separator :: right := by
    rw [← List.reverse_inj, List.reverse_reverse]
    simp
  have hmem : separator ∈ right.reverse ↔ separator ∈ right := List.mem_reverse
  rw [← hreverse, ← hmem, ← splitFirst?_eq_some_iff, splitLast?, Option.map_eq_some_iff]
  constructor
  · rintro ⟨⟨after, before⟩, hsplit, hparts⟩
    cases hparts
    simpa using hsplit
  · intro hsplit
    exact ⟨_, hsplit, by simp⟩

private theorem foldl_utf8Size (text : List Char) (n : Nat) :
    text.foldl (fun n c => n + c.utf8Size) n = n + byteLength text := by
  induction text generalizing n with
  | nil => rfl
  | cons c rest ih =>
    rw [byteLength, List.foldl_cons, List.foldl_cons, ih, ih, Nat.zero_add, Nat.add_assoc]

theorem byteLength_cons (c : Char) (text : List Char) :
    byteLength (c :: text) = c.utf8Size + byteLength text := by
  rw [byteLength, List.foldl_cons, foldl_utf8Size, Nat.zero_add]

theorem one_le_byteLength_iff {text : List Char} : 1 ≤ byteLength text ↔ text ≠ [] := by
  cases text with
  | nil => decide
  | cons c rest =>
    have hsize := c.utf8Size_pos
    rw [byteLength_cons]
    exact iff_of_true (by omega) (List.cons_ne_nil c rest)

/-- Where every character takes one byte, the length is the number of characters. -/
theorem byteLength_eq_length {text : List Char} (h : ∀ c ∈ text, c.utf8Size = 1) :
    byteLength text = text.length := by
  induction text with
  | nil => rfl
  | cons c rest ih =>
    rw [byteLength_cons, h c (by simp), ih fun d hd => h d (by simp [hd]), List.length_cons,
      Nat.add_comm]

end PacketTunnel.Text
