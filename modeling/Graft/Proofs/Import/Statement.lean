import Graft.Import.Statement
import Graft.Proofs.Import.Reading

/-!
# What is read as an import statement

A `Statement` is an import statement as it stands in a text: the blanks before it, what stands between
`import` and its specifier, and the specifier. One is recognised exactly if it stands at the front of a text
(`isStatement_iff`), whatever follows it. A named import is one if all characters between its braces may
stand in a clause (`Spelling.isStatement`).
-/

namespace Graft.Import

variable {line rest gap : Text} {c : Char}

/-- An import statement stands at the front of a text. -/
def IsStatement (line : Text) : Prop := (afterStatement? line).isSome = true

/-- A statement is looked for at the front. -/
instance : Decidable (IsStatement line) :=
  inferInstanceAs (Decidable ((afterStatement? line).isSome = true))

/-- A statement has characters. -/
theorem IsStatement.ne_nil (h : IsStatement line) : line ≠ [] := by
  rintro rfl
  exact absurd h (by decide)

/-- An import statement as it stands in a text, up to its specifier. -/
structure Statement where
  blanks : Text
  gap : Text
  quoted : Quoted
  isBlank : ∀ c ∈ blanks, Alphabet.isBlank c = true
  isGap : isGap gap = true

/-- The text of an import statement. -/
def Statement.text (s : Statement) : Text := s.blanks ++ ("import".toList ++ (s.gap ++ s.quoted.text))

/-- A statement in front of a text, part by part. -/
theorem Statement.text_append (s : Statement) (rest : Text) :
    s.text ++ rest = s.blanks ++ ("import".toList ++ (s.gap ++ (s.quoted.text ++ rest))) := by
  have htext : s.text = s.blanks ++ ("import".toList ++ (s.gap ++ s.quoted.text)) := rfl
  rw [htext]
  simp only [List.append_assoc]

/-! ## Characters of a clause -/

/-- White space may stand in a clause. -/
theorem isClauseChar_of_isSpace (h : Alphabet.isSpace c = true) : isClauseChar c = true := by
  simp [isClauseChar, h]

/-- No quotation mark may stand in a clause. -/
theorem isQuote_of_isClauseChar (h : isClauseChar c = true) : Alphabet.isQuote c = false := by
  rw [← Bool.not_eq_true]
  intro hquote
  rw [Alphabet.isQuote, Bool.or_eq_true, decide_eq_true_eq, decide_eq_true_eq] at hquote
  rcases hquote with rfl | rfl <;> exact absurd h (by decide)

/-- A gap consists of characters of a clause. -/
theorem isClauseChar_of_isGap (h : isGap gap = true) : ∀ c ∈ gap, isClauseChar c = true := by
  unfold isGap at h
  split at h
  · next hspace => exact fun c hc => isClauseChar_of_isSpace (List.all_eq_true.mp hspace c hc)
  · simp only at h
    split at h
    · simp only [Bool.and_eq_true, List.all_eq_true] at h
      exact h.1.1.1.2
    · cases h

/-! ## Statements -/

/-- A statement is taken off the front of a text, with what ends its line. -/
theorem afterStatement?_eq_some (h : afterStatement? line = some rest) :
    ∃ (s : Statement) (ending : Text), line = s.text ++ (ending ++ rest) := by
  have hblanks := List.takeWhile_append_dropWhile (p := Alphabet.isBlank) (l := line)
  unfold afterStatement? at h
  simp only [Option.bind_eq_bind, Option.bind_eq_some_iff] at h
  obtain ⟨text, himport, h⟩ := h
  split at h
  · next hgap =>
    obtain ⟨⟨inside, tail⟩, hquoted, hrest⟩ := Option.bind_eq_some_iff.mp h
    obtain ⟨q, -, htail⟩ := readQuoted?_eq_some_iff.mp hquoted
    have hcut : text.takeWhile (fun c => !Alphabet.isQuote c) ++ (q.text ++ tail) = text := by
      have hprefix := List.takeWhile_prefix (l := text) fun c => !Alphabet.isQuote c
      rw [← htail]
      exact List.prefix_iff_eq_append.mp hprefix
    -- What ends the line is cut off in four steps.
    obtain ⟨ending, hending⟩ : rest <:+ tail := by
      rw [← Option.some.inj hrest]
      have hsemicolon : ∀ t, skipSemicolon t <:+ t := by
        intro t
        unfold skipSemicolon
        split
        · exact List.suffix_cons _ _
        · exact List.suffix_refl _
      have hlineEnd : ∀ t, skipLineEnd t <:+ t := by
        intro t
        unfold skipLineEnd
        split
        · exact (List.suffix_cons _ _).trans (List.suffix_cons _ _)
        · exact List.suffix_cons _ _
        · exact List.suffix_refl _
      exact (hlineEnd _).trans ((List.dropWhile_suffix _).trans
        ((hsemicolon _).trans (List.dropWhile_suffix _)))
    refine ⟨⟨line.takeWhile Alphabet.isBlank, _, q, fun c hc => List.mem_takeWhile_imp hc, hgap⟩, ending, ?_⟩
    rw [Statement.text_append, hending, hcut, ← Text.follow?_eq_some_iff.mp himport, hblanks]
  · cases h

/-- A statement is recognised exactly if it stands there. -/
theorem isStatement_iff : IsStatement line ↔ ∃ (s : Statement) (rest : Text), line = s.text ++ rest := by
  constructor
  · intro h
    obtain ⟨rest, hrest⟩ := Option.isSome_iff_exists.mp h
    obtain ⟨s, ending, hs⟩ := afterStatement?_eq_some hrest
    exact ⟨s, ending ++ rest, hs⟩
  · rintro ⟨s, rest, rfl⟩
    -- The parts are read in the order in which they are spelled, and each ends where the next one starts.
    have hblanks : (s.blanks ++ ("import".toList ++ (s.gap ++ (s.quoted.text ++ rest)))).dropWhile
        Alphabet.isBlank = "import".toList ++ (s.gap ++ (s.quoted.text ++ rest)) := by
      rw [List.dropWhile_append_of_pos s.isBlank]
      rfl
    have hgap : (s.gap ++ (s.quoted.text ++ rest)).takeWhile (fun c => !Alphabet.isQuote c) = s.gap := by
      rw [List.takeWhile_append_of_pos fun c hc => by
        simp [isQuote_of_isClauseChar (isClauseChar_of_isGap s.isGap c hc)]]
      rw [Quoted.text, List.cons_append, List.takeWhile_cons_of_neg (by simp [s.quoted.isOpening]),
        List.append_nil]
    have hquoted : readQuoted? (s.quoted.text ++ rest) = some (s.quoted.specifier, rest) :=
      readQuoted?_eq_some_iff.mpr ⟨s.quoted, rfl, rfl⟩
    unfold IsStatement afterStatement?
    rw [s.text_append, hblanks, Text.follow?_append]
    simp only [Option.bind_eq_bind, Option.bind_some, hgap, s.isGap, if_true, List.drop_left, hquoted,
      Option.pure_def, Option.isSome_some]

/-- A statement stays one, whatever follows it. -/
theorem IsStatement.append (h : IsStatement line) (rest : Text) : IsStatement (line ++ rest) := by
  obtain ⟨s, tail, rfl⟩ := isStatement_iff.mp h
  exact isStatement_iff.mpr ⟨s, tail ++ rest, List.append_assoc ..⟩

/-- Blanks may stand before a statement. -/
theorem IsStatement.indent {blanks : Text} (h : IsStatement line)
    (hblanks : ∀ c ∈ blanks, Alphabet.isBlank c = true) : IsStatement (blanks ++ line) := by
  obtain ⟨s, rest, rfl⟩ := isStatement_iff.mp h
  refine isStatement_iff.mpr ⟨⟨blanks ++ s.blanks, s.gap, s.quoted, ?_, s.isGap⟩, rest, ?_⟩
  · exact List.forall_mem_append.mpr ⟨hblanks, s.isBlank⟩
  · rw [Statement.text_append, Statement.text_append, List.append_assoc]

/-! ## Named imports that are statements -/

/-- A clause behind white space, `from`, and white space around that make a gap. -/
theorem isGap_from {clause after : Text} {last : Char} (hlong : 2 ≤ clause.length)
    (hhead : clause.head?.any Alphabet.isSpace = true) (hclause : ∀ c ∈ clause, isClauseChar c = true)
    (hlast : Alphabet.isSpace last = true) (hafter : IsSpacing after) :
    isGap (clause ++ last :: "from".toList ++ after) = true := by
  -- Trimmed at its end, the gap ends with `from`.
  have hbody : Text.trimEnd (clause ++ last :: "from".toList ++ after) = clause ++ last :: "from".toList := by
    refine Text.trimEndBy_eq (fun c hc => ?_) hafter.space
    rw [List.getLast?_append_of_ne_nil _ (List.cons_ne_nil _ _)] at hc
    obtain rfl : 'm' = c := Option.some.inj hc
    decide
  have hword : Text.after? "from".toList.reverse (clause ++ last :: "from".toList).reverse =
      some (last :: clause.reverse) := by
    rw [Text.after?_eq_some_iff, List.reverse_append, List.reverse_cons, List.append_assoc]
    rfl
  have hnotSpace : (clause ++ last :: "from".toList ++ after).all Alphabet.isSpace = false := by
    rw [List.all_eq_false]
    exact ⟨'f', by simp, by decide⟩
  have hshorter : (clause ++ last :: "from".toList).length <
      (clause ++ last :: "from".toList ++ after).length := by
    have hpos := List.length_pos_iff.mpr hafter.ne_nil
    simp only [List.length_append]
    omega
  have hchars : (clause ++ last :: "from".toList ++ after).all isClauseChar = true := by
    have hfrom : "from".toList.all isClauseChar = true := by decide
    rw [List.all_eq_true]
    simp only [List.forall_mem_append, List.forall_mem_cons]
    exact ⟨⟨hclause, isClauseChar_of_isSpace hlast, List.all_eq_true.mp hfrom⟩,
      fun c hc => isClauseChar_of_isSpace (hafter.space c hc)⟩
  have hfirst : (clause ++ last :: "from".toList ++ after).head?.any Alphabet.isSpace = true := by
    obtain ⟨c, rest, rfl⟩ := List.exists_cons_of_length_pos (Nat.zero_lt_of_lt hlong)
    exact hhead
  unfold isGap
  rw [hnotSpace, if_neg Bool.false_ne_true]
  simp only [hbody, hword, hchars, hlast, hfirst, hshorter, hlong, List.length_reverse, decide_true,
    Bool.and_self]

/-- What stands between `import` and the specifier of a named import is a gap if the characters between the
braces may stand in a clause. -/
theorem Spelling.isGap (s : Spelling) (h : ∀ c ∈ s.list, isClauseChar c = true) :
    Import.isGap s.gap = true := by
  have hspacing : ∀ {t : Text}, IsSpacing t → ∀ c ∈ t, isClauseChar c = true := fun ht c hc =>
    isClauseChar_of_isSpace (ht.space c hc)
  obtain hnil | ⟨between, last, hafter⟩ := List.eq_nil_or_concat s.afterList
  · exact absurd hnil s.isAfterList.ne_nil
  have hbetween := hspacing s.isAfterList
  rw [hafter] at hbetween
  have hgap : s.gap =
      (s.afterImport ++ '{' :: (s.list ++ '}' :: between)) ++ last :: "from".toList ++ s.afterFrom := by
    rw [gap, hafter]
    simp only [List.concat_eq_append, List.append_assoc, List.cons_append, List.nil_append]
  rw [hgap]
  refine isGap_from ?_ ?_ ?_ (s.isAfterList.space last (by simp [hafter])) s.isAfterFrom
  · simp only [List.length_append, List.length_cons]
    omega
  · obtain ⟨c, rest, hcons⟩ := List.exists_cons_of_ne_nil s.isAfterImport.ne_nil
    rw [hcons, List.cons_append, List.head?_cons, Option.any_some]
    exact s.isAfterImport.space c (by simp [hcons])
  · simp only [List.forall_mem_append, List.forall_mem_cons]
    exact ⟨hspacing s.isAfterImport, by decide, h, by decide, fun c hc => hbetween c (by simp [hc])⟩

/-- A named import whose characters between the braces may stand in a clause is a statement. -/
theorem Spelling.isStatement (s : Spelling) (h : ∀ c ∈ s.list, isClauseChar c = true) (rest : Text) :
    IsStatement (s.text ++ rest) := by
  refine isStatement_iff.mpr ⟨⟨[], s.gap, s.quoted, by simp, s.isGap h⟩, rest, ?_⟩
  rfl

end Graft.Import
