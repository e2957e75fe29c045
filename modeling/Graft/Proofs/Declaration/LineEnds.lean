import Graft.Proofs.Declaration.Positions

/-!
# Where an expression ends

An expression may end with a line that ends in a semicolon, with the last line, and with a line before a
blank line or one that starts a statement (`MayEnd`). Going through the lines from the first one on, an
expression ends with the first line that it may end with, in front of the line break
(`expressionFrom_eq`). However the search comes to its end, this is the place that it gives
(`expression_ends`).
-/

namespace Graft.Declaration

open Text (byteLength cutAt? trimEnd trimEndBy linesWithEnds)

variable {file before front rest line next t : Text} {lines : List Text} {c : Char} {k start : Nat}
  {last : Text}

/-- A line without text. -/
def IsBlankLine (line : Text) : Prop := ∀ c ∈ line, Alphabet.isSpace c = true

/-- A line that starts with a letter, a numeral, an underscore or a dollar sign. -/
def StartsStatement (line : Text) : Prop :=
  ∃ c ∈ line.head?, Alphabet.isAlphanumeric c = true ∨ c = '_' ∨ c = '$'

/-- An expression may end with a line that has these lines behind it: it ends in a semicolon, or no line is
behind it, or the next one is blank or starts a statement. -/
def MayEndBefore (line : Text) (behind : List Text) : Prop :=
  (trimEnd line).getLast? = some ';' ∨ behind = [] ∨
    ∃ next ∈ behind.head?, IsBlankLine next ∨ StartsStatement next

/-- An expression on these lines may end with the line of this number. -/
def MayEnd (lines : List Text) (k : Nat) : Prop :=
  ∃ line behind, lines.drop k = line :: behind ∧ MayEndBefore line behind

/-- The expression ends with the line of this number: it is the first one that it may end with. -/
def EndsWithLine (lines : List Text) (k : Nat) : Prop := MayEnd lines k ∧ ∀ j < k, ¬ MayEnd lines j

/-! ## The search, line by line -/

/-- A line is blank if nothing is left of it when its end is trimmed. -/
theorem isBlankLine_iff : IsBlankLine line ↔ (trimEnd line).isEmpty = true := by
  rw [List.isEmpty_iff]
  exact Text.trimEndBy_eq_nil_iff.symm

/-- What starts a statement is told by the first character. -/
theorem startsStatement_iff : StartsStatement line ↔ startsStatement line = true := by
  cases line <;> simp [StartsStatement, startsStatement, Alphabet.isIdentifier, or_assoc]

/-- A text that ends with a semicolon has it as the last character. -/
theorem endsWith_semicolon_iff : Text.endsWith ';' t = true ↔ t.getLast? = some ';' := by
  simp [Text.endsWith]

/-- Where an expression may end with the first line, it ends there. -/
theorem endsWithLine_zero (hline : MayEndBefore line lines) : EndsWithLine (line :: lines) 0 :=
  ⟨⟨line, lines, rfl, hline⟩, fun j hj => absurd hj (Nat.not_lt_zero j)⟩

/-- A search that passes the first line goes on with the others. -/
theorem endsWithLine_succ (hline : ¬ MayEndBefore line lines) (h : EndsWithLine lines k) :
    EndsWithLine (line :: lines) (k + 1) := by
  refine ⟨h.1, fun j hj => ?_⟩
  cases j with
  | zero =>
    rintro ⟨first, behind, hdrop, hends⟩
    obtain ⟨rfl, rfl⟩ := List.cons.inj hdrop
    exact hline hends
  | succ j => exact h.2 j (Nat.lt_of_succ_lt_succ hj)

/-- More than line breaks stands in a line that is not blank. -/
theorem trimEndBy_isLineBreak_ne_nil (hline : ¬ IsBlankLine line) :
    trimEndBy Alphabet.isLineBreak line ≠ [] := by
  refine fun hnil => hline fun c hc => ?_
  by_contra hspace
  have hbreak := Text.isLineBreak_of_isSpace (Bool.eq_false_iff.mpr hspace)
  rw [Text.trimEndBy_eq_nil_iff.mp hnil c hc] at hbreak
  cases hbreak

/-- What a search comes to with a line that is taken in. -/
theorem expressionFrom_cons {isFirst : Bool} (front : Text) (hline : ¬ IsBlankLine line)
    (htaken : isFirst = true ∨ ¬ StartsStatement line) (lines : List Text) :
    expressionFrom front isFirst (line :: lines) =
      if Text.endsWith ';' (trimEnd line) || lines.isEmpty then
        front ++ trimEndBy Alphabet.isLineBreak line
      else expressionFrom (front ++ line) false lines := by
  rw [isBlankLine_iff] at hline
  rw [startsStatement_iff] at htaken
  rw [expressionFrom, if_neg]
  rcases htaken with rfl | hstarts
  · simp
  · simp [hline, hstarts]

/-- From a line on that is taken in, an expression ends with the first line that it may end with. -/
theorem expressionFrom_eq {isFirst : Bool} (front : Text) (hline : ¬ IsBlankLine line)
    (htaken : isFirst = true ∨ ¬ StartsStatement line) (lines : List Text) :
    ∃ k last, EndsWithLine (line :: lines) k ∧ (line :: lines)[k]? = some last ∧
      expressionFrom front isFirst (line :: lines) =
        front ++ (((line :: lines).take k).flatten ++ trimEndBy Alphabet.isLineBreak last) := by
  induction lines generalizing front line isFirst with
  | nil =>
    refine ⟨0, line, endsWithLine_zero (Or.inr (Or.inl rfl)), rfl, ?_⟩
    rw [expressionFrom_cons front hline htaken]
    simp
  | cons next lines ih =>
    rw [expressionFrom_cons front hline htaken]
    by_cases hsemicolon : Text.endsWith ';' (trimEnd line) = true
    · refine ⟨0, line, endsWithLine_zero (Or.inl (endsWith_semicolon_iff.mp hsemicolon)), rfl, ?_⟩
      simp [hsemicolon]
    rw [if_neg (by simp [hsemicolon])]
    by_cases hnext : IsBlankLine next ∨ StartsStatement next
    · -- The search gives up all line breaks before the next line; they are those of this one.
      refine ⟨0, line, endsWithLine_zero (Or.inr (Or.inr ⟨next, rfl, hnext⟩)), rfl, ?_⟩
      rw [isBlankLine_iff, startsStatement_iff, ← Bool.or_eq_true] at hnext
      rw [expressionFrom, if_pos (by simpa using hnext),
        Text.trimEndBy_append_of_ne_nil (trimEndBy_isLineBreak_ne_nil hline)]
      rfl
    · obtain ⟨hblank, hstarts⟩ := not_or.mp hnext
      obtain ⟨k, last, hends, hlast, heq⟩ := ih (front ++ line) hblank (Or.inr hstarts)
      have hpassed : ¬ MayEndBefore line (next :: lines) := by
        rintro (hsemi | hnil | ⟨_, hhead, hstops⟩)
        · exact hsemicolon (endsWith_semicolon_iff.mpr hsemi)
        · cases hnil
        · obtain rfl := Option.some.inj hhead
          exact hnext hstops
      refine ⟨k + 1, last, endsWithLine_succ hpassed hends, hlast, ?_⟩
      rw [heq, List.take_succ_cons, List.flatten_cons, List.append_assoc, List.append_assoc]

/-! ## The end of an expression -/

/-- The first line of a text that does not start with white space is not blank. -/
theorem exists_linesWithEnds_cons (hc : Alphabet.isSpace c = false) (rest : Text) :
    ∃ line lines, linesWithEnds (c :: rest) = line :: lines ∧ ¬ IsBlankLine line := by
  obtain ⟨more, lines, hlines, -⟩ :=
    Text.exists_linesWithEnds_append (by simp) (Text.lineFeed_notMem_singleton hc) rest
  refine ⟨[c] ++ more, lines, by rw [← List.singleton_append, hlines], fun hblank => ?_⟩
  rw [hblank c (by simp)] at hc
  cases hc

/-- What an expression is made of is not empty. -/
theorem flatten_take_append_ne_nil (hline : ¬ IsBlankLine line) (hlast : (line :: lines)[k]? = some last) :
    ((line :: lines).take k).flatten ++ trimEndBy Alphabet.isLineBreak last ≠ [] := by
  cases k with
  | zero =>
    obtain rfl : line = last := Option.some.inj hlast
    exact fun hnil => trimEndBy_isLineBreak_ne_nil hline (List.append_eq_nil_iff.mp hnil).2
  | succ k =>
    intro hnil
    rw [List.take_succ_cons, List.flatten_cons, List.append_assoc] at hnil
    rw [(List.append_eq_nil_iff.mp hnil).1] at hline
    exact hline fun c hc => absurd hc List.not_mem_nil

/-- The expression at the start of a text ends with the first of its lines that it may end with. -/
theorem expressionOf_eq (hc : Alphabet.isSpace c = false) (rest : Text) :
    ∃ k last, EndsWithLine (linesWithEnds (c :: rest)) k ∧ (linesWithEnds (c :: rest))[k]? = some last ∧
      expressionOf (c :: rest) ≠ [] ∧ expressionOf (c :: rest) =
        ((linesWithEnds (c :: rest)).take k).flatten ++ trimEndBy Alphabet.isLineBreak last := by
  obtain ⟨line, lines, hlines, hline⟩ := exists_linesWithEnds_cons hc rest
  unfold expressionOf
  rw [hlines]
  obtain ⟨k, last, hends, hlast, heq⟩ := expressionFrom_eq [] hline (Or.inl rfl) lines
  refine ⟨k, last, hends, hlast, ?_, heq⟩
  rw [heq]
  exact flatten_take_append_ne_nil hline hlast

/-- An expression that starts at a place of a file, and not with white space, ends with the first line that it
may end with, in front of the line break. So many characters are cut off, and by positions this is where the
search ends: behind the start, inside of the file, and where a character starts. -/
theorem expression_ends (hstart : cutAt? start file = some (before, c :: rest))
    (hc : Alphabet.isSpace c = false) :
    ∃ k last stop, EndsWithLine (linesWithEnds (c :: rest)) k ∧
      (linesWithEnds (c :: rest))[k]? = some last ∧
      (c :: rest).take (expressionLength (c :: rest)) =
        ((linesWithEnds (c :: rest)).take k).flatten ++ trimEndBy Alphabet.isLineBreak last ∧
      Bytewise.expressionEnd? file start = some stop ∧
      stop = start + byteLength ((linesWithEnds (c :: rest)).take k).flatten +
        byteLength (trimEndBy Alphabet.isLineBreak last) ∧
      start < stop ∧ stop ≤ byteLength file ∧ (cutAt? stop file).isSome := by
  obtain ⟨rfl, rfl⟩ := Text.cutAt?_eq_some_iff.mp hstart
  obtain ⟨k, last, hends, hlast, hne, htext⟩ := expressionOf_eq hc rest
  -- The file is what stands up to the end of the expression, and what is left of it, which gives all of the
  -- bounds.
  have hfile : before ++ c :: rest =
      (before ++ expressionOf (c :: rest)) ++ (c :: rest).drop (expressionLength (c :: rest)) := by
    rw [List.append_assoc, expressionOf_append_drop]
  have hpos := Text.byteLength_pos hne
  refine ⟨k, last, byteLength (before ++ expressionOf (c :: rest)), hends, hlast, ?_,
    Bytewise.expressionEnd?_eq before hc rest, ?_, ?_, ?_, ?_⟩
  · rw [take_expressionLength, htext]
  · rw [htext, Text.byteLength_append, Text.byteLength_append, Nat.add_assoc]
  · rw [Text.byteLength_append]
    exact Nat.lt_add_of_pos_right hpos
  · rw [hfile, Text.byteLength_append (before ++ expressionOf (c :: rest))]
    exact Nat.le_add_right _ _
  · rw [hfile, Text.cutAt?_append]
    rfl

/-- The expression goes on over an indented line, and ends in front of all carriage returns and the line feed
before the next statement. -/
theorem expression_ends_chain :
    cutAt? 20 "const f = (a) =>\r\n  a\r\n    .trim()\r\r\nconst g = 1\r\n".toList =
        some ("const f = (a) =>\r\n  ".toList, 'a' :: "\r\n    .trim()\r\r\nconst g = 1\r\n".toList) ∧
      Alphabet.isSpace 'a' = false ∧
      ∃ k last, EndsWithLine (linesWithEnds "a\r\n    .trim()\r\r\nconst g = 1\r\n".toList) k ∧
        (linesWithEnds "a\r\n    .trim()\r\r\nconst g = 1\r\n".toList)[k]? = some last ∧
        Bytewise.expressionEnd? "const f = (a) =>\r\n  a\r\n    .trim()\r\r\nconst g = 1\r\n".toList 20 =
          some 34 ∧
        34 = 20 + byteLength
            ((linesWithEnds "a\r\n    .trim()\r\r\nconst g = 1\r\n".toList).take k).flatten +
          byteLength (trimEndBy Alphabet.isLineBreak last) := by
  have hstart : cutAt? 20 "const f = (a) =>\r\n  a\r\n    .trim()\r\r\nconst g = 1\r\n".toList =
      some ("const f = (a) =>\r\n  ".toList,
        'a' :: "\r\n    .trim()\r\r\nconst g = 1\r\n".toList) := by
    decide +kernel
  have hc : Alphabet.isSpace 'a' = false := by decide
  have hstop : Bytewise.expressionEnd?
      "const f = (a) =>\r\n  a\r\n    .trim()\r\r\nconst g = 1\r\n".toList 20 = some 34 := by
    decide +kernel
  obtain ⟨k, last, stop, hends, hlast, -, hsearch, hsum, -⟩ := expression_ends hstart hc
  obtain rfl : 34 = stop := Option.some.inj (hstop.symm.trans hsearch)
  exact ⟨hstart, hc, k, last, hends, hlast, hstop, hsum⟩

end Graft.Declaration
