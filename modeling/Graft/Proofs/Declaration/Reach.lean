import Graft.Proofs.Declaration.Lookahead

/-!
# How far the ends of declarations look ahead

A declaration that ends in front of a line does not depend on what is put in behind that line, if the
line starts a statement: a block looks for a closing line, which the line is not, and an expression stops
there. And where no end is found in a file, none is found with a harmless comment either.
-/

namespace Graft.Declaration

open Text (trimEnd trimEndBy linesWithEnds)

variable {c r s t u x z after inside rest : Text} {depth n : Nat}

/-! ## Parentheses -/

/-- A search for a closing parenthesis ends in the first part of a text, whatever follows it, or goes on
behind it. -/
theorem untilCloseParen?_append (depth : Nat) (r : Text) :
    (∃ inside tail, r = inside ++ ')' :: tail ∧
      ∀ rest, untilCloseParen? depth (r ++ rest) = some (inside, ')' :: (tail ++ rest))) ∨
    ∃ opened, ∀ rest, untilCloseParen? depth (r ++ rest) =
      (untilCloseParen? opened rest).map fun parts => (r ++ parts.1, parts.2) := by
  induction r generalizing depth with
  | nil => exact Or.inr ⟨depth, fun rest => by simp⟩
  | cons d r ih =>
    -- The search goes on with some count, and `d` stays in front of what it finds.
    have hstep : (∃ depth', ∀ rest, untilCloseParen? depth (d :: rest) =
        (untilCloseParen? depth' rest).map fun parts => (d :: parts.1, parts.2)) ∨
        (depth = 0 ∧ d = ')') := by
      by_cases hopen : d = '('
      · subst hopen
        exact Or.inl ⟨depth + 1, fun rest => rfl⟩
      · by_cases hclose : d = ')'
        · subst hclose
          cases depth with
          | zero => exact Or.inr ⟨rfl, rfl⟩
          | succ depth => exact Or.inl ⟨depth, fun rest => rfl⟩
        · exact Or.inl ⟨depth, untilCloseParen?_other hopen hclose depth⟩
    rcases hstep with ⟨depth', hstep⟩ | ⟨rfl, rfl⟩
    · rcases ih depth' with ⟨inside, tail, rfl, hfound⟩ | ⟨opened, hmore⟩
      · refine Or.inl ⟨d :: inside, tail, rfl, fun rest => ?_⟩
        rw [List.cons_append, hstep, hfound]
        rfl
      · refine Or.inr ⟨opened, fun rest => ?_⟩
        rw [List.cons_append, hstep, hmore, Option.map_map]
        rfl
    · exact Or.inl ⟨[], r, rfl, fun rest => rfl⟩

/-- A search for a closing parenthesis goes over a harmless comment. -/
theorem untilCloseParen?_comment (hc : Text.Balanced c) (opened : Nat) (rest : Text) :
    untilCloseParen? opened (comment c ++ rest) =
      (untilCloseParen? opened rest).map fun parts => (comment c ++ parts.1, parts.2) := by
  have hslashes := untilCloseParen?_balanced (t := [' ', '/', '/', ' ']) (by decide) opened (c ++ rest)
  rw [untilCloseParen?_balanced hc, Option.map_map] at hslashes
  exact hslashes

/-! ## Closing lines -/

/-- A character is skipped in the line it is looked for in. -/
theorem skipChar_append {d : Char} (hd : d ≠ '\n') (t rest : Text) :
    skipChar d (t ++ '\n' :: rest) = skipChar d t ++ '\n' :: rest := by
  cases t with
  | nil => exact if_neg (Ne.symm hd)
  | cons e t =>
    show (if e = d then t ++ '\n' :: rest else e :: (t ++ '\n' :: rest)) =
      (if e = d then t else e :: t) ++ '\n' :: rest
    split <;> rfl

/-- Whether a line is a closing brace is decided in front of its line feed. -/
theorem isClosingLine_append (t rest : Text) : isClosingLine (t ++ '\n' :: rest) = isClosingLine t := by
  cases t with
  | nil => rfl
  | cons d t =>
    by_cases hd : d = '}'
    · subst hd
      have hblank : ∀ u : Text, (u ++ '\n' :: rest).dropWhile Alphabet.isBlank =
          u.dropWhile Alphabet.isBlank ++ '\n' :: rest := by
        intro u
        exact (Header.takeWhile_append_right (by simp; decide) u).2
      rw [List.cons_append, isClosingLine, isClosingLine, skipChar_append (by decide),
        skipChar_append (by decide), hblank, skipChar_append (by decide)]
      cases skipChar '\r' ((skipChar ';' (skipChar ')' t)).dropWhile Alphabet.isBlank) <;> rfl
    · rw [List.cons_append]
      unfold isClosingLine
      split
      · next heq => exact absurd (List.cons.inj heq).1 hd
      · split
        · next heq => exact absurd (List.cons.inj heq).1 hd
        · rfl

/-- A line that starts with a letter is not a closing line. -/
theorem isClosingLine_of_head? (h : ∀ d ∈ t.head?, d ≠ '}') : isClosingLine t = false := by
  cases t with
  | nil => rfl
  | cons d t =>
    unfold isClosingLine
    split
    · next heq => exact absurd (List.cons.inj heq).1 (h d rfl)
    · rfl

/-- The next closing line is one of those in front of a line that is none, or it is behind that. -/
theorem toClosingLine?_append (hs : isClosingLine s = false) (z : Text) :
    toClosingLine? (z ++ '\n' :: s) =
      (toClosingLine? (z ++ ['\n'])).or ((toClosingLine? s).map (· + (z.length + 1))) := by
  -- The induction is on the text in front, whose lines all end in front of the second text.
  induction z with
  | nil =>
    show (if _ then _ else _) = _
    rw [if_neg (by simp [hs])]
    rfl
  | cons d z ih =>
    rw [List.cons_append, List.cons_append, toClosingLine?, toClosingLine?, isClosingLine_append,
      isClosingLine_append, ih]
    split
    · rfl
    · cases toClosingLine? (z ++ ['\n']) with
      | some n => rfl
      | none =>
        rw [Option.map_none, Option.none_or, Option.none_or, Option.map_map]
        rfl

/-! ## Blocks -/

/-- A block ends in front of a line that does not close it, or at the next closing line behind that. -/
theorem blockLength?_append (hs : isClosingLine s = false) (z : Text) :
    blockLength? ('{' :: (z ++ '\n' :: s)) =
      (blockLength? ('{' :: (z ++ ['\n']))).or ((toClosingLine? s).map (· + (z.length + 3))) := by
  have hclass : ∀ rest : Text, ∀ d ∈ ('\n' :: rest).head?, (decide (d ≠ '\n')) = false := by simp
  -- The first line is cut off before the second is looked at, and so it is the same whatever follows.
  have hcut : ∀ rest, ('{' :: (z ++ '\n' :: rest)).takeWhile (· ≠ '\n') = ('{' :: z).takeWhile (· ≠ '\n') ∧
      ('{' :: (z ++ '\n' :: rest)).dropWhile (· ≠ '\n') =
        ('{' :: z).dropWhile (· ≠ '\n') ++ '\n' :: rest :=
    fun rest => Header.takeWhile_append_right (hclass rest) ('{' :: z)
  have hlength : (('{' :: z).takeWhile (· ≠ '\n')).length + (('{' :: z).dropWhile (· ≠ '\n')).length =
      z.length + 1 := by
    rw [← List.length_append, List.takeWhile_append_dropWhile, List.length_cons]
  unfold blockLength?
  dsimp only
  rw [(hcut s).1, (hcut s).2, (hcut []).1, (hcut []).2, toClosingLine?_append hs]
  -- The block is closed on its first line, by a line in front of the second text, or not before that text.
  cases oneLineBlock? (('{' :: z).takeWhile (· ≠ '\n')) with
  | some n => rfl
  | none =>
    dsimp only
    cases toClosingLine? (('{' :: z).dropWhile (· ≠ '\n') ++ ['\n']) with
    | some n => rfl
    | none =>
      rw [Option.none_or, Option.map_none, Option.none_or, Option.map_map]
      congr 1
      funext n
      rw [Function.comp_apply]
      omega

/-- A block ends in front of all lines that do not close it, or behind each of them. -/
theorem exists_blockLength?_append (z : Text) :
    (∃ body q, z ++ ['\n'] = body ++ q ∧ ∀ {s}, isClosingLine s = false →
      blockLength? ('{' :: (z ++ '\n' :: s)) = some (body.length + 1)) ∨
    ∀ {s}, isClosingLine s = false →
      blockLength? ('{' :: (z ++ '\n' :: s)) = (toClosingLine? s).map (· + (z.length + 3)) := by
  cases hfront : blockLength? ('{' :: (z ++ ['\n'])) with
  | some n =>
    obtain ⟨body, q, hsplit, rfl, -⟩ := blockLength?_brace hfront
    refine Or.inl ⟨body, q, hsplit, fun hs => ?_⟩
    rw [blockLength?_append hs, hfront, Option.some_or]
  | none =>
    refine Or.inr fun hs => ?_
    rw [blockLength?_append hs, hfront, Option.none_or]

/-- A text starts with a word if it is the word and something behind it. -/
theorem startsWith_iff {word : String} : Text.startsWith word t = true ↔ ∃ rest, t = word.toList ++ rest := by
  unfold Text.startsWith
  rw [Option.isSome_iff_exists]
  exact exists_congr fun rest => Text.follow?_eq_some_iff

/-- A comment starts with a slash and another slash or a star. -/
def StartsComment (t : Text) : Prop := ∃ mark rest, (mark = '/' ∨ mark = '*') ∧ t = '/' :: mark :: rest

/-- What stands behind the start of a comment leaves it the start of one. -/
theorem StartsComment.append (h : StartsComment t) (rest : Text) : StartsComment (t ++ rest) := by
  obtain ⟨mark, more, hmark, rfl⟩ := h
  exact ⟨mark, more ++ rest, hmark, rfl⟩

/-- Whether only punctuation and a comment follow a block: nothing but white space is left behind the
punctuation, or the start of a comment. -/
theorem isQuietTail_iff :
    isQuietTail t = true ↔
      (∀ d ∈ t.dropWhile isBlockTail, Alphabet.isSpace d = true) ∨ StartsComment (t.dropWhile isBlockTail) := by
  unfold isQuietTail
  generalize t.dropWhile isBlockTail = u
  -- Trimming the end keeps a comment's two first characters, since neither of them is white space.
  have hslash : ∀ mark rest, (mark = '/' ∨ mark = '*') → ∃ more, trimEnd ('/' :: mark :: rest) =
      '/' :: mark :: more := by
    intro mark rest hmark
    exact Text.exists_trimEndBy_append (t := ['/', mark])
      (by rcases hmark with rfl | rfl <;> simp <;> decide) rest
  simp only [Bool.or_eq_true, List.isEmpty_iff, startsWith_iff]
  constructor
  · rintro ((hnil | ⟨rest, hrest⟩) | ⟨rest, hrest⟩)
    · exact Or.inl (Text.trimEndBy_eq_nil_iff.mp hnil)
    · obtain ⟨cut, hcut, -⟩ := Text.trimEndBy_append Alphabet.isSpace u
      refine Or.inr ⟨'/', rest ++ cut, Or.inl rfl, ?_⟩
      rw [hcut, show trimEndBy Alphabet.isSpace u = _ from hrest]
      rfl
    · obtain ⟨cut, hcut, -⟩ := Text.trimEndBy_append Alphabet.isSpace u
      refine Or.inr ⟨'*', rest ++ cut, Or.inr rfl, ?_⟩
      rw [hcut, show trimEndBy Alphabet.isSpace u = _ from hrest]
      rfl
  · rintro (hspace | ⟨mark, rest, hmark, rfl⟩)
    · exact Or.inl (Or.inl (Text.trimEndBy_eq_nil_iff.mpr hspace))
    · obtain ⟨more, hmore⟩ := hslash mark rest hmark
      rw [hmore]
      rcases hmark with rfl | rfl
      · exact Or.inl (Or.inr ⟨more, rfl⟩)
      · exact Or.inr ⟨more, rfl⟩

/-- What follows a block is as quiet without a comment as with one. -/
theorem isQuietTail_of_comment {tail : Text} (hrest : ∀ d ∈ rest, Alphabet.isSpace d = true)
    (h : isQuietTail (tail ++ (comment c ++ rest)) = true) : isQuietTail (tail ++ rest) = true := by
  rw [isQuietTail_iff] at h ⊢
  rw [List.dropWhile_append] at h ⊢
  cases htail : tail.dropWhile isBlockTail with
  | nil =>
    refine Or.inl fun d hd => hrest d ?_
    rw [List.isEmpty_nil, if_pos rfl] at hd
    exact (List.dropWhile_suffix isBlockTail).subset hd
  | cons d behind =>
    rw [htail] at h
    rw [List.isEmpty_cons, if_neg Bool.false_ne_true] at h ⊢
    rcases h with hspace | ⟨mark, more, hmark, hstart⟩
    · -- The slashes of the comment are no white space.
      exact absurd (hspace '/' (by simp [comment])) (by decide)
    · obtain ⟨rfl, hbehind⟩ := List.cons.inj hstart
      cases behind with
      | nil =>
        have : mark = ' ' := by simpa [comment] using (List.cons.inj hbehind).1.symm
        rcases hmark with rfl | rfl <;> cases this
      | cons e behind =>
        obtain ⟨rfl, -⟩ := List.cons.inj hbehind
        exact Or.inr ⟨e, behind ++ rest, hmark, rfl⟩

/-- What follows a block ends plainly: behind the punctuation nothing is left, or the start of a
comment. -/
def IsPlainTail (tail : Text) : Prop :=
  tail.dropWhile isBlockTail = [] ∨ StartsComment (tail.dropWhile isBlockTail)

/-- Behind a plain tail, a comment is quiet. -/
theorem isQuietTail_comment {tail : Text} (htail : IsPlainTail tail) (rest : Text) :
    isQuietTail (tail ++ (comment c ++ rest)) = true := by
  rw [isQuietTail_iff, List.dropWhile_append]
  rcases htail with hnil | hstarts
  · rw [hnil, List.isEmpty_nil, if_pos rfl]
    exact Or.inr ⟨'/', ' ' :: (c ++ rest), Or.inl rfl, rfl⟩
  · obtain ⟨mark, more, -, hmore⟩ := id hstarts
    rw [hmore, List.isEmpty_cons, if_neg Bool.false_ne_true, ← hmore]
    exact Or.inr (hstarts.append _)

/-- A block on one line ends with the last closing brace, if it has as many opening ones and only
punctuation and a comment follow. -/
theorem oneLineBlock?_eq {front tail : Text} (htail : '}' ∉ tail) :
    oneLineBlock? (front ++ '}' :: tail) =
      if Text.countChar '{' (front ++ ['}']) = Text.countChar '}' (front ++ ['}']) ∧ isQuietTail tail = true
      then some (front.length + 1) else none := by
  unfold oneLineBlock?
  rw [Text.splitAtLast_append htail]
  simp

/-- A line without a closing brace closes no block. -/
theorem oneLineBlock?_eq_none (ht : '}' ∉ t) : oneLineBlock? t = none := by
  unfold oneLineBlock?
  rw [Text.splitAtLast_eq_none_iff.mpr ht]

/-- The rest of a line is white space, and a line feed follows or nothing. -/
theorem IsLineEnd.exists_split (h : IsLineEnd after) :
    ∃ blank later, after = blank ++ later ∧ (∀ d ∈ blank, d = '\r') ∧ ∀ d ∈ later.head?, d = '\n' := by
  rcases h with rfl | ⟨rest, rfl⟩ | ⟨rest, rfl⟩
  · exact ⟨[], [], rfl, by simp, by simp⟩
  · exact ⟨[], '\n' :: rest, rfl, by simp, by simp⟩
  · exact ⟨['\r'], '\n' :: rest, rfl, by simp, by simp⟩

/-- A comment has no line feed and no closing brace. -/
theorem Harmless.notMem_comment (hc : Harmless c after) :
    '\n' ∉ comment c ∧ '}' ∉ comment c ∧ '{' ∉ comment c := by
  have hclose : '}' ∉ c := fun h => absurd (hc.braceless '}' h) (by decide)
  have hopen : '{' ∉ c := fun h => absurd (hc.braceless '{' h) (by decide)
  simp [comment, hc.oneLine, hclose, hopen]

/-- A block on one line that ends with some closing brace has none behind that. -/
theorem notMem_of_oneLineBlock? {front tail : Text}
    (h : oneLineBlock? (front ++ '}' :: tail) = some (front.length + 1)) : '}' ∉ tail := by
  obtain ⟨front', tail', hsplit, hlast, hlength⟩ := oneLineBlock?_eq_some h
  obtain ⟨-, hsame⟩ := List.append_inj hsplit (by simpa using hlength)
  rw [(List.cons.inj hsame).2]
  exact hlast

/-- No block on one line is closed with a comment if none is closed without it. -/
theorem oneLineBlock?_of_comment {blank : Text} (hblank : ∀ d ∈ blank, d = '\r') (hc : Harmless c after)
    (hnone : oneLineBlock? (x ++ blank) = none) : oneLineBlock? (x ++ (comment c ++ blank)) = none := by
  have hclose := hc.notMem_comment.2.1
  have hspace : ∀ d ∈ blank, Alphabet.isSpace d = true := fun d hd => by rw [hblank d hd]; rfl
  have hbrace : '}' ∉ blank := fun h => absurd (hblank _ h) (by decide)
  by_cases hmem : '}' ∈ x
  · obtain ⟨front, tail, hlast, rfl⟩ := Text.exists_last_occurrence hmem
    rw [List.append_assoc, List.cons_append] at hnone ⊢
    rw [oneLineBlock?_eq (by simp [hlast, hbrace])] at hnone
    rw [oneLineBlock?_eq (by simp [hlast, hbrace, hclose])]
    split at hnone
    · cases hnone
    · next hnot => exact if_neg fun h => hnot ⟨h.1, isQuietTail_of_comment hspace h.2⟩
  · exact oneLineBlock?_eq_none (by simp [hmem, hclose, hbrace])

/-- A block on one line with a plain tail ends at the same place with a comment. -/
theorem oneLineBlock?_comment {front tail blank : Text} (hc : Harmless c after) (htail : IsPlainTail tail)
    (hone : oneLineBlock? (front ++ '}' :: (tail ++ blank)) = some (front.length + 1)) :
    oneLineBlock? (front ++ '}' :: (tail ++ (comment c ++ blank))) = some (front.length + 1) := by
  have hlast := notMem_of_oneLineBlock? hone
  have hlast' : '}' ∉ tail ++ (comment c ++ blank) := by
    simp only [List.mem_append, not_or] at hlast ⊢
    exact ⟨hlast.1, hc.notMem_comment.2.1, hlast.2⟩
  rw [oneLineBlock?_eq hlast] at hone
  rw [oneLineBlock?_eq hlast']
  split at hone
  · next hbalanced => exact if_pos ⟨hbalanced.1, isQuietTail_comment htail blank⟩
  · cases hone

/-- The length of a block whose brace is in the line in front of an end. -/
theorem blockLength?_line (hx : '\n' ∉ x) {later : Text} (hlater : ∀ d ∈ later.head?, d = '\n') :
    blockLength? ('{' :: (x ++ later)) =
      (oneLineBlock? ('{' :: x)).or ((toClosingLine? later).map fun n => x.length + n + 2) := by
  have hline : '\n' ∉ '{' :: x := by simpa using hx
  have hstop : later.takeWhile (· ≠ '\n') = [] ∧ later.dropWhile (· ≠ '\n') = later := by
    cases later with
    | nil => exact ⟨rfl, rfl⟩
    | cons d later =>
      obtain rfl := hlater d rfl
      exact ⟨List.takeWhile_cons_of_neg (by simp), List.dropWhile_cons_of_neg (by simp)⟩
  unfold blockLength?
  rw [← List.cons_append, Text.takeWhile_ne_append hline, Text.dropWhile_ne_append hline, hstop.1, hstop.2,
    List.append_nil]
  dsimp only
  cases oneLineBlock? ('{' :: x) with
  | some n => rfl
  | none =>
    rw [Option.none_or]
    dsimp only
    congr 1
    funext n
    rw [List.length_cons]
    omega

/-- A block that is not closed is not closed with a comment either. -/
theorem blockLength?_of_comment (hafter : IsLineEnd after) (hc : Harmless c after) (hx : '\n' ∉ x)
    (hnone : blockLength? ('{' :: (x ++ after)) = none) :
    blockLength? ('{' :: (x ++ (comment c ++ after))) = none := by
  obtain ⟨blank, later, rfl, hblank, hlater⟩ := hafter.exists_split
  have hfeed : '\n' ∉ blank := fun h => absurd (hblank _ h) (by decide)
  rw [← List.append_assoc, blockLength?_line (by simp [hx, hfeed]) hlater, Option.or_eq_none_iff,
    Option.map_eq_none_iff] at hnone
  rw [← List.append_assoc, ← List.append_assoc,
    blockLength?_line (by simp [hx, hc.notMem_comment.1, hfeed]) hlater, List.append_assoc,
    Option.or_eq_none_iff, Option.map_eq_none_iff]
  exact ⟨oneLineBlock?_of_comment (x := '{' :: x) hblank hc hnone.1, hnone.2⟩

/-- A block that is closed on its line is closed at the same place with a comment, if it has a plain
tail. -/
theorem blockLength?_comment {body tail : Text} (hafter : IsLineEnd after) (hc : Harmless c after)
    (hbody : '\n' ∉ body ++ tail) (hlast : body.getLast? = some '}') (htail : IsPlainTail tail)
    (hold : blockLength? ('{' :: (body ++ (tail ++ after))) = some (body.length + 1)) :
    blockLength? ('{' :: (body ++ (tail ++ (comment c ++ after)))) = some (body.length + 1) := by
  obtain ⟨blank, later, rfl, hblank, hlater⟩ := hafter.exists_split
  have hfeed : '\n' ∉ blank := fun h => absurd (hblank _ h) (by decide)
  obtain ⟨inside, rfl⟩ := List.getLast?_eq_some_iff.mp hlast
  have hline : ∀ s, (inside ++ ['}']) ++ (tail ++ (s ++ later)) = (inside ++ '}' :: (tail ++ s)) ++ later := by
    simp
  have hlength : (inside ++ ['}']).length + 1 = ('{' :: inside).length + 1 := by simp
  rw [hline, blockLength?_line (by simpa [hfeed] using hbody) hlater] at hold
  rw [← List.append_assoc (comment c), hline,
    blockLength?_line (by simpa [hfeed, hc.notMem_comment.1] using hbody) hlater]
  have hone : oneLineBlock? (('{' :: inside) ++ '}' :: (tail ++ blank)) =
      some (('{' :: inside).length + 1) := by
    rcases Option.or_eq_some_iff.mp hold with hone | ⟨-, hlater⟩
    · rw [← hlength, ← hone]
      rfl
    · -- A closing line is behind the line.
      obtain ⟨n, -, hn⟩ := Option.map_eq_some_iff.mp hlater
      simp only [List.length_append, List.length_cons, List.length_nil] at hn
      omega
  rw [hlength]
  exact Option.or_eq_some_iff.mpr (Or.inl (oneLineBlock?_comment hc htail hone))

/-! ## Expressions -/

/-- What is left of the front of a text after trimming is not trimmed with more behind it. -/
theorem trimEndBy_prefix_append (p : Char → Bool) (t u : Text) : trimEndBy p t <+: trimEndBy p (t ++ u) := by
  obtain ⟨cut, ht, -⟩ := Text.trimEndBy_append p t
  obtain ⟨more, hmore⟩ := Text.exists_trimEndBy_append (Text.trimEndBy_getLast? p t) (cut ++ u)
  rw [← List.append_assoc, ← ht] at hmore
  exact ⟨more, hmore.symm⟩

/-- An expression keeps what is behind, but for line breaks at the end. -/
theorem trimEndBy_prefix_expressionFrom (front : Text) (isFirst : Bool) (lines : List Text) :
    trimEndBy Alphabet.isLineBreak front <+: expressionFrom front isFirst lines := by
  induction lines generalizing front isFirst with
  | nil => exact List.prefix_refl _
  | cons line lines ih =>
    rw [expressionFrom]
    split
    · exact List.prefix_refl _
    · split
      · exact (Text.trimEndBy_isPrefix _ front).trans (List.prefix_append _ _)
      · exact (trimEndBy_prefix_append _ front line).trans (ih (front ++ line) false)

/-- An expression has all of its first line, but for line breaks at the end. -/
theorem trimEndBy_prefix_expressionOf {line : Text} {lines : List Text} (ht : linesWithEnds t = line :: lines) :
    trimEndBy Alphabet.isLineBreak line <+: expressionOf t := by
  unfold expressionOf
  rw [ht, expressionFrom, if_neg (by simp)]
  split
  · exact List.prefix_refl _
  · exact trimEndBy_prefix_expressionFrom line false lines

/-- An expression stops in front of a line that starts a statement, whatever the line is. -/
theorem exists_expressionFrom (front : Text) (isFirst : Bool) {lines : List Text}
    (hfirst : isFirst = false ∨ lines ≠ []) :
    ∃ e, e <+: front ++ lines.flatten ∧ ∀ line more, startsStatement line = true →
      expressionFrom front isFirst (lines ++ line :: more) = e := by
  -- The induction is on the lines in front of the one that starts a statement: the expression ends with one
  -- of them, or goes on to that line and stops.
  induction lines generalizing front isFirst with
  | nil =>
    obtain rfl := hfirst.resolve_right (by simp)
    refine ⟨trimEndBy Alphabet.isLineBreak front, by simpa using Text.trimEndBy_isPrefix _ front,
      fun line more hline => ?_⟩
    rw [List.nil_append, expressionFrom, if_pos (by simp [hline])]
  | cons first lines ih =>
    by_cases hstop : (!isFirst && ((trimEnd first).isEmpty || startsStatement first)) = true
    · refine ⟨trimEndBy Alphabet.isLineBreak front,
        (Text.trimEndBy_isPrefix _ front).trans (List.prefix_append _ _),
        fun line more hline => ?_⟩
      rw [List.cons_append, expressionFrom, if_pos hstop]
    · by_cases hend : Text.endsWith ';' (trimEnd first) = true
      · refine ⟨front ++ trimEndBy Alphabet.isLineBreak first, ?_, fun line more hline => ?_⟩
        · rw [List.flatten_cons]
          exact (List.prefix_append_right_inj _).mpr
            ((Text.trimEndBy_isPrefix _ first).trans (List.prefix_append _ _))
        · rw [List.cons_append, expressionFrom, if_neg hstop, if_pos (by simp [hend])]
      · obtain ⟨e, he, hmore⟩ := ih (front ++ first) false (Or.inl rfl)
        refine ⟨e, ?_, fun line more hline => ?_⟩
        · rwa [List.flatten_cons, ← List.append_assoc]
        · rw [List.cons_append, expressionFrom, if_neg hstop, if_neg (by simp [hend])]
          exact hmore line more hline

/-- An expression keeps the front of its first line, if that does not end with a line break. -/
theorem exists_expressionOf_append (front : Text) (hne : front ≠ []) (hline : '\n' ∉ front)
    (hlast : ∀ d ∈ front.getLast?, Alphabet.isLineBreak d = false) (u : Text) :
    ∃ more, expressionOf (front ++ u) = front ++ more := by
  obtain ⟨behind, others, hlines, -⟩ := Text.exists_linesWithEnds_append hne hline u
  obtain ⟨kept, hkept⟩ := Text.exists_trimEndBy_append hlast behind
  obtain ⟨more, hmore⟩ := trimEndBy_prefix_expressionOf hlines
  rw [hkept, List.append_assoc] at hmore
  exact ⟨_, hmore.symm⟩

/-- A body keeps the front of its expression, if that does not end with white space or a semicolon. -/
theorem exists_bodyOf_append (front : Text)
    (hlast : ∀ d ∈ front.getLast?, Alphabet.isSpace d = false ∧ d ≠ ';') (u : Text) :
    ∃ more, bodyOf (front ++ u) = front ++ more := by
  have hspace : ∀ d ∈ front.getLast?, Alphabet.isSpace d = false := fun d hd => (hlast d hd).1
  obtain ⟨first, hfirst⟩ := Text.exists_trimEndBy_append hspace u
  obtain ⟨second, hsecond⟩ := Text.exists_trimEndBy_append (p := (· = ';'))
    (fun d hd => by simp [(hlast d hd).2]) first
  obtain ⟨third, hthird⟩ := Text.exists_trimEndBy_append hspace second
  refine ⟨third, ?_⟩
  unfold bodyOf trimEnd
  rw [hfirst, hsecond, hthird]

end Graft.Declaration
