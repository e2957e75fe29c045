import Graft.Declaration.Extent
import Graft.Proofs.Declaration.Signature
import Graft.Proofs.Text.Lines

/-!
# Where declarations end

Each way to find an end cuts the text: at the parenthesis that closes the parameters, behind the brace that
closes a block, behind the last line of an expression. Here these are said as equations between the text
and its parts, so that a declaration that was cut is written in its file (`Cut.exists_source`): its name,
its parameters and its body stand there one behind the other.
-/

namespace Graft.Text

variable {c : Char}

/-- A line break is white space. -/
theorem isLineBreak_of_isSpace (h : Alphabet.isSpace c = false) : Alphabet.isLineBreak c = false := by
  cases hc : Alphabet.isLineBreak c with
  | false => rfl
  | true =>
    have : c = '\n' ∨ c = '\r' := by simpa [Alphabet.isLineBreak] using hc
    rcases this with rfl | rfl <;> exact absurd h (by decide)

/-- A character that is no white space is no line feed. -/
theorem lineFeed_notMem_singleton (h : Alphabet.isSpace c = false) : '\n' ∉ [c] := by
  intro hmem
  rw [← List.mem_singleton.mp hmem] at h
  cases h

end Graft.Text

namespace Graft.Declaration

open Text (trimEnd trimEndBy linesWithEnds)

variable {t inside tail : Text} {depth n : Nat}

/-! ## Parentheses and braces -/

/-- A character that is no parenthesis stays before the one that is looked for. -/
theorem untilCloseParen?_other {c : Char} (hopen : c ≠ '(') (hclose : c ≠ ')') (depth : Nat)
    (rest : Text) :
    untilCloseParen? depth (c :: rest) =
      (untilCloseParen? depth rest).map fun parts => (c :: parts.1, parts.2) := by
  conv_lhs => unfold untilCloseParen?
  split
  · next heq => cases heq
  · next heq => exact absurd (List.cons.inj heq).1 hopen
  · next heq => exact absurd (List.cons.inj heq).1 hclose
  · next heq => exact absurd (List.cons.inj heq).1 hclose
  · next heq =>
    obtain ⟨rfl, rfl⟩ := List.cons.inj heq
    rfl

/-- A text is cut before the parenthesis that closes one opened before it. -/
theorem untilCloseParen?_eq_some (h : untilCloseParen? depth t = some (inside, tail)) :
    ∃ rest, tail = ')' :: rest ∧ t = inside ++ tail := by
  fun_induction untilCloseParen? depth t generalizing inside with
  | case1 => cases h
  | case2 depth rest ih | case4 rest depth ih | case5 depth rest c _ _ _ ih =>
    obtain ⟨⟨front, behind⟩, hrest, hpair⟩ := Option.map_eq_some_iff.mp h
    obtain ⟨rfl, rfl⟩ := Prod.mk.inj hpair
    obtain ⟨more, hmore, rfl⟩ := ih hrest
    exact ⟨more, hmore, rfl⟩
  | case3 rest =>
    obtain ⟨rfl, rfl⟩ := Prod.mk.inj (Option.some.inj h)
    exact ⟨rest, rfl, rfl⟩

/-- A closing line starts with a closing brace. -/
theorem exists_of_isClosingLine (h : isClosingLine t = true) : ∃ rest, t = '}' :: rest := by
  unfold isClosingLine at h
  split at h
  · next rest => exact ⟨rest, rfl⟩
  · cases h

/-- The next closing line stands behind a line feed. -/
theorem toClosingLine?_eq_some (h : toClosingLine? t = some n) :
    ∃ front rest, t = front ++ '\n' :: rest ∧ n = front.length + 1 ∧ isClosingLine rest = true := by
  induction t generalizing n with
  | nil => cases h
  | cons c t ih =>
    rw [toClosingLine?] at h
    split at h
    · next hclosing =>
      obtain ⟨hc, hrest⟩ : c = '\n' ∧ isClosingLine t = true := by simpa using hclosing
      obtain rfl := Option.some.inj h
      exact ⟨[], t, by rw [hc, List.nil_append], rfl, hrest⟩
    · obtain ⟨k, hk, rfl⟩ := Option.map_eq_some_iff.mp h
      obtain ⟨front, rest, rfl, rfl, hrest⟩ := ih hk
      exact ⟨c :: front, rest, rfl, rfl, hrest⟩

/-- Along the rest of a line there is no closing line. -/
theorem toClosingLine?_along {line : Text} (hline : '\n' ∉ line) (t : Text) :
    toClosingLine? (line ++ t) = (toClosingLine? t).map (· + line.length) := by
  induction line with
  | nil => simp
  | cons c line ih =>
    obtain ⟨hc, hline⟩ := not_or.mp (mt List.mem_cons.mpr hline)
    rw [List.cons_append, toClosingLine?, if_neg (by simp [Ne.symm hc]), ih hline, Option.map_map]
    rfl

/-- A block on one line ends with the last closing brace of the line. -/
theorem oneLineBlock?_eq_some (h : oneLineBlock? t = some n) :
    ∃ front tail, t = front ++ '}' :: tail ∧ '}' ∉ tail ∧ n = (front ++ ['}']).length := by
  unfold oneLineBlock? at h
  split at h
  · next front c tail hsplit =>
    obtain ⟨tail', htail, hno, rfl⟩ := Text.splitAtLast_eq_some hsplit
    obtain ⟨rfl, rfl⟩ := List.cons.inj htail
    dsimp only at h
    split at h
    · exact ⟨front, tail, rfl, hno, (Option.some.inj h).symm⟩
    · cases h
  · cases h

/-- A block is cut behind a closing brace. -/
theorem blockLength?_eq_some (h : blockLength? t = some n) :
    ∃ front rest, t = (front ++ ['}']) ++ rest ∧ n = (front ++ ['}']).length := by
  have hsplit : t = t.takeWhile (· ≠ '\n') ++ t.dropWhile (· ≠ '\n') :=
    List.takeWhile_append_dropWhile.symm
  unfold blockLength? at h
  dsimp only at h
  -- The block ends on its first line, or with the closing line that is found behind it.
  split at h
  · next length hline =>
    obtain rfl := Option.some.inj h
    obtain ⟨front, tail, hfront, -, hlength⟩ := oneLineBlock?_eq_some hline
    refine ⟨front, tail ++ t.dropWhile (· ≠ '\n'), ?_, hlength⟩
    rw [hfront] at hsplit
    simpa using hsplit
  · obtain ⟨k, hk, rfl⟩ := Option.map_eq_some_iff.mp h
    obtain ⟨front, rest, hrest, rfl, hclosing⟩ := toClosingLine?_eq_some hk
    obtain ⟨behind, rfl⟩ := exists_of_isClosingLine hclosing
    refine ⟨t.takeWhile (· ≠ '\n') ++ (front ++ ['\n']), behind, ?_, ?_⟩
    · rw [hrest] at hsplit
      simpa using hsplit
    · simp only [List.length_append, List.length_singleton, Nat.add_assoc]

/-- A block that starts with an opening brace is cut behind its body, which ends with a closing one. -/
theorem blockLength?_brace (h : blockLength? ('{' :: t) = some n) :
    ∃ body rest, t = body ++ rest ∧ n = body.length + 1 ∧ body.getLast? = some '}' := by
  obtain ⟨front, rest, htext, rfl⟩ := blockLength?_eq_some h
  cases front with
  | nil =>
    -- The opening brace is no closing one.
    exact absurd (List.cons.inj htext).1 (by decide)
  | cons c front =>
    obtain ⟨-, rfl⟩ := List.cons.inj htext
    exact ⟨front ++ ['}'], rest, rfl, by simp, List.getLast?_concat⟩

/-! ## Expressions -/

/-- The expression that goes on with some lines, where `front` is what is behind. -/
def expressionFrom : (front : Text) → (isFirst : Bool) → List Text → Text
  | front, _, [] => trimEndBy Alphabet.isLineBreak front
  | front, isFirst, line :: lines =>
    if !isFirst && ((trimEnd line).isEmpty || startsStatement line) then
      trimEndBy Alphabet.isLineBreak front
    else if Text.endsWith ';' (trimEnd line) || lines.isEmpty then
      front ++ trimEndBy Alphabet.isLineBreak line
    else expressionFrom (front ++ line) false lines

/-- The expression at the start of a text, with a semicolon at its end if it has one. -/
def expressionOf (t : Text) : Text := expressionFrom [] true (linesWithEnds t)

/-- The length of an expression is that of its text. -/
theorem expressionLengthFrom_eq (front : Text) (isFirst : Bool) (lines : List Text) :
    expressionLengthFrom (front ++ lines.flatten) front.length isFirst lines =
      (expressionFrom front isFirst lines).length := by
  induction lines generalizing front isFirst with
  | nil => simp [expressionLengthFrom, expressionFrom]
  | cons line lines ih =>
    have hbehind := ih (front ++ line) false
    rw [List.length_append, List.append_assoc, ← List.flatten_cons] at hbehind
    rw [expressionLengthFrom, expressionFrom, List.take_left]
    split
    · rfl
    · split
      · rw [List.length_append]
      · exact hbehind

/-- An expression starts where its text does. -/
theorem expressionFrom_prefix (front : Text) (isFirst : Bool) (lines : List Text) :
    expressionFrom front isFirst lines <+: front ++ lines.flatten := by
  induction lines generalizing front isFirst with
  | nil =>
    rw [expressionFrom, List.flatten_nil, List.append_nil]
    exact Text.trimEndBy_isPrefix _ front
  | cons line lines ih =>
    rw [expressionFrom]
    split
    · exact (Text.trimEndBy_isPrefix _ front).trans (List.prefix_append _ _)
    · split
      · rw [List.flatten_cons]
        exact (List.prefix_append_right_inj _).mpr
          ((Text.trimEndBy_isPrefix _ line).trans (List.prefix_append _ _))
      · rw [List.flatten_cons, ← List.append_assoc]
        exact ih (front ++ line) false

/-- A text is cut behind the expression at its start. -/
theorem take_expressionLength (t : Text) : t.take (expressionLength t) = expressionOf t := by
  have hlength := expressionLengthFrom_eq [] true (linesWithEnds t)
  have hprefix := expressionFrom_prefix [] true (linesWithEnds t)
  rw [List.nil_append, Text.flatten_linesWithEnds] at hlength hprefix
  rw [expressionLength, ← List.length_nil (α := Char), hlength]
  exact (List.prefix_iff_eq_take.mp hprefix).symm

/-- A text is an expression and what is cut behind it. -/
theorem expressionOf_append_drop (t : Text) : expressionOf t ++ t.drop (expressionLength t) = t := by
  rw [← take_expressionLength, List.take_append_drop]

/-- The body that is made of an expression. -/
def bodyOf (expression : Text) : Text := trimEnd (trimEndBy (· = ';') (trimEnd expression))

/-- A body stands at the front of its expression. -/
theorem bodyOf_isPrefix (expression : Text) : bodyOf expression <+: expression :=
  (Text.trimEndBy_isPrefix _ _).trans ((Text.trimEndBy_isPrefix _ _).trans (Text.trimEndBy_isPrefix _ _))

/-- Behind the body of an expression are semicolons and white space. -/
theorem exists_bodyOf (expression : Text) :
    ∃ tail, trimEnd expression = bodyOf expression ++ tail ∧
      ∀ c ∈ tail, c = ';' ∨ Alphabet.isSpace c = true := by
  obtain ⟨marks, hmarks, hsemicolons⟩ := Text.trimEndBy_append (· = ';') (trimEnd expression)
  obtain ⟨gap, hgap, hspace⟩ :=
    Text.trimEndBy_append Alphabet.isSpace (trimEndBy (· = ';') (trimEnd expression))
  refine ⟨gap ++ marks, ?_, fun c hc => ?_⟩
  · rw [hmarks, hgap, List.append_assoc]
    rfl
  · rcases List.mem_append.mp hc with hc | hc
    · exact Or.inr (hspace c hc)
    · exact Or.inl (by simpa using hsemicolons c hc)

/-! ## What is cut -/

variable {h : Header} {marker opening parameters between text body rest : Text} {isGenerator : Bool}
  {done : Cut}

/-- A block is cut off as far as it is found to reach. -/
theorem withBlock?_eq (h : Header) (isGenerator : Bool) (parameters text : Text) :
    h.withBlock? isGenerator parameters text = (blockLength? text).map fun n =>
      ⟨⟨String.ofList h.name, h.spanUntil (text.drop n), h.isAsync, isGenerator, parameters,
        .block ((text.take n).drop 1)⟩, text.drop n⟩ := by
  unfold Header.withBlock?
  cases blockLength? text <;> rfl

/-- A block is cut off with its body. -/
theorem withBlock?_of_length (hlength : blockLength? ('{' :: (body ++ rest)) = some (body.length + 1))
    (h : Header) (isGenerator : Bool) (parameters : Text) :
    h.withBlock? isGenerator parameters ('{' :: (body ++ rest)) =
      some ⟨⟨String.ofList h.name, h.spanUntil rest, h.isAsync, isGenerator, parameters, .block body⟩,
        rest⟩ := by
  have hdrop : ('{' :: (body ++ rest)).drop (body.length + 1) = rest := by simp
  have htake : (('{' :: (body ++ rest)).take (body.length + 1)).drop 1 = body := by simp
  rw [withBlock?_eq, hlength, Option.map_some, hdrop, htake]

/-- What is cut with a block. -/
theorem withBlock?_eq_some (hcut : h.withBlock? isGenerator parameters ('{' :: text) = some done) :
    ∃ body rest, text = body ++ rest ∧ body.getLast? = some '}' ∧
      blockLength? ('{' :: (body ++ rest)) = some (body.length + 1) ∧
      done = ⟨⟨String.ofList h.name, h.spanUntil rest, h.isAsync, isGenerator, parameters, .block body⟩,
        rest⟩ := by
  obtain ⟨n, hn, -⟩ := Option.map_eq_some_iff.mp ((withBlock?_eq ..).symm.trans hcut)
  obtain ⟨body, rest, rfl, rfl, hlast⟩ := blockLength?_brace hn
  rw [withBlock?_of_length hn] at hcut
  exact ⟨body, rest, rfl, hlast, hn, (Option.some.inj hcut).symm⟩

/-- An expression is cut off where it is found to end, unless nothing is left of it. -/
theorem withExpression?_eq (h : Header) (parameters text : Text) :
    h.withExpression? parameters text =
      if bodyOf (expressionOf text) = [] then none
      else some ⟨⟨String.ofList h.name, trimEnd (h.spanUntil (text.drop (expressionLength text))),
        h.isAsync, false, parameters, .expression (bodyOf (expressionOf text))⟩,
        text.drop (expressionLength text)⟩ := by
  unfold Header.withExpression? bodyOf
  dsimp only
  rw [take_expressionLength]
  simp only [List.isEmpty_iff]

/-- What is cut with an expression. -/
theorem withExpression?_eq_some (hcut : h.withExpression? parameters text = some done) :
    ∃ rest, text = expressionOf text ++ rest ∧ bodyOf (expressionOf text) ≠ [] ∧
      done = ⟨⟨String.ofList h.name, trimEnd (h.spanUntil rest), h.isAsync, false, parameters,
        .expression (bodyOf (expressionOf text))⟩, rest⟩ := by
  rw [withExpression?_eq] at hcut
  split at hcut
  · cases hcut
  · next hne =>
    exact ⟨_, (expressionOf_append_drop text).symm, hne, (Option.some.inj hcut).symm⟩

/-! ## How it is written -/

/-- A text that starts with a declaring word and in which the name and the parameters of a declaration
stand one behind the other, with `later` at the end. -/
structure Announces (d : Declaration) (source later : Text) : Prop where
  word : ∃ word ∈ Header.declaringWords, word.toList <+: source
  parts : ∃ marker opening between,
    source = marker ++ (d.name.toList ++ (opening ++ (d.parameters ++ (between ++ later))))

/-- A declaration is written in a text: all of it is the declaration's text, up to white space at the end
of an expression, and the body stands behind the parameters. -/
def Written (d : Declaration) (source : Text) : Prop :=
  match d.body with
  | .block body => d.text = source ∧ body.getLast? = some '}' ∧ Announces d source ('{' :: body)
  | .expression e => d.text = trimEnd source ∧ e ≠ [] ∧
      ∃ tail, (∀ c ∈ tail, c = ';' ∨ Alphabet.isSpace c = true) ∧ Announces d d.text (e ++ tail)

/-- A header spans what stands before the rest. -/
theorem spanUntil_eq {source rest : Text} (hdeclared : h.declared = source ++ rest) :
    h.spanUntil rest = source := by
  unfold Header.spanUntil
  rw [hdeclared, List.length_append, Nat.add_sub_cancel, List.take_left]

/-- A declaration with a block for a body is written up to the closing brace. -/
theorem exists_source_of_block
    (hdeclared : h.declared = marker ++ (h.name ++ (opening ++ (parameters ++ (between ++ '{' :: text)))))
    (hword : ∃ word ∈ Header.declaringWords, word.toList <+: marker)
    (hcut : h.withBlock? isGenerator parameters ('{' :: text) = some done) :
    ∃ source, h.declared = source ++ done.rest ∧ Written done.declaration source := by
  obtain ⟨body, rest, rfl, hlast, -, rfl⟩ := withBlock?_eq_some hcut
  have hsource : h.declared =
      (marker ++ (h.name ++ (opening ++ (parameters ++ (between ++ '{' :: body))))) ++ rest := by
    rw [hdeclared]
    simp
  refine ⟨_, hsource, ?_⟩
  dsimp only
  rw [spanUntil_eq hsource]
  obtain ⟨word, hmem, hprefix⟩ := hword
  refine ⟨rfl, hlast, ⟨word, hmem, hprefix.trans (List.prefix_append _ _)⟩, marker, opening, between, ?_⟩
  rw [String.toList_ofList]

/-- A declaration with an expression for a body is written up to the end of the expression. -/
theorem exists_source_of_expression
    (hdeclared : h.declared = marker ++ (h.name ++ (opening ++ (parameters ++ (between ++ text)))))
    (hword : ∃ word ∈ Header.declaringWords, word.toList <+: marker)
    (hcut : h.withExpression? parameters text = some done) :
    ∃ source, h.declared = source ++ done.rest ∧ Written done.declaration source := by
  obtain ⟨rest, htext, hne, rfl⟩ := withExpression?_eq_some hcut
  generalize expressionOf text = kept at htext hne ⊢
  obtain ⟨tail, htail, hmarks⟩ := exists_bodyOf kept
  have hfull : trimEndBy Alphabet.isSpace kept ≠ [] := by
    show trimEnd kept ≠ []
    rw [htail]
    simp [hne]
  have hsource : h.declared =
      (marker ++ (h.name ++ (opening ++ (parameters ++ (between ++ kept))))) ++ rest := by
    rw [hdeclared, htext]
    simp
  -- The span is trimmed at its end, and since the expression is not blank, only the expression loses
  -- anything.
  have hspan : trimEnd (marker ++ (h.name ++ (opening ++ (parameters ++ (between ++ kept))))) =
      marker ++ (h.name ++ (opening ++ (parameters ++ (between ++ (bodyOf kept ++ tail))))) := by
    have hfront := Text.trimEndBy_append_of_ne_nil hfull
      (marker ++ (h.name ++ (opening ++ (parameters ++ between))))
    rw [show trimEndBy Alphabet.isSpace kept = bodyOf kept ++ tail from htail] at hfront
    simp only [List.append_assoc] at hfront
    exact hfront
  refine ⟨_, hsource, ?_⟩
  unfold Written
  dsimp only
  rw [spanUntil_eq hsource, hspan]
  obtain ⟨word, hmem, hprefix⟩ := hword
  refine ⟨rfl, hne, tail, hmarks, ⟨word, hmem, hprefix.trans (List.prefix_append _ _)⟩, marker, opening,
    between, ?_⟩
  rw [String.toList_ofList]

/-- From an opening brace on, if there is one. -/
theorem dropWhile_brace (t : Text) :
    t.dropWhile (· ≠ '{') = [] ∨ ∃ rest, t.dropWhile (· ≠ '{') = '{' :: rest := by
  cases hdrop : t.dropWhile (· ≠ '{') with
  | nil => exact Or.inl rfl
  | cons c rest =>
    have hc := List.head?_dropWhile_not (· ≠ '{') t
    rw [hdrop] at hc
    exact Or.inr ⟨rest, by rw [show c = '{' by simpa using hc]⟩

/-- An arrow function with nothing behind the arrow has no end. -/
theorem cut?_arrow_nil (hkind : h.kind = .arrow parameters) (htrim : Text.trimStart h.rest = []) :
    h.cut? = none := by
  unfold Header.cut?
  rw [hkind]
  dsimp only
  rw [htrim]

/-- An arrow function is cut at the end of the block or the expression behind the arrow. -/
theorem cut?_arrow {c : Char} (hkind : h.kind = .arrow parameters)
    (htrim : Text.trimStart h.rest = c :: text) :
    h.cut? = if c = '{' then h.withBlock? false parameters ('{' :: text)
      else h.withExpression? parameters (c :: text) := by
  unfold Header.cut?
  rw [hkind]
  dsimp only
  rw [htrim]
  split
  · next heq => cases heq
  · next heq =>
    obtain ⟨rfl, rfl⟩ := List.cons.inj heq
    rw [if_pos rfl]
  · next hne =>
    rw [if_neg]
    rintro rfl
    exact hne text rfl

/-- A declaration that is cut is written from its declaring word on, up to where the rest begins. -/
theorem Header.Spelled.exists_source (hspelled : h.Spelled marker opening) (hcut : h.cut? = some done) :
    ∃ source, h.declared = source ++ done.rest ∧ Written done.declaration source := by
  have hdeclared := hspelled.declared
  unfold Header.cut? at hcut
  split at hcut
  · next isGenerator _ =>
    obtain ⟨⟨inside, behind⟩, hparen, hcut⟩ := Option.bind_eq_some_iff.mp hcut
    obtain ⟨-, -, hrest⟩ := untilCloseParen?_eq_some hparen
    dsimp only at hcut
    rcases dropWhile_brace behind with hnone | ⟨text, htext⟩
    · -- Without a brace there is no block.
      rw [hnone] at hcut
      cases hcut
    · have hsplit : behind = behind.takeWhile (· ≠ '{') ++ '{' :: text := by
        rw [← htext, List.takeWhile_append_dropWhile]
      have hparts : h.declared = marker ++ (h.name ++ (opening ++ (inside ++
          (behind.takeWhile (· ≠ '{') ++ '{' :: text)))) := by
        rw [hdeclared, hrest, ← hsplit]
      rw [htext] at hcut
      exact exists_source_of_block hparts hspelled.word hcut
  · next parameters harrow =>
    have hkind := hspelled.kind
    rw [harrow] at hkind
    obtain ⟨before, behind, -, rfl⟩ := hkind
    obtain ⟨blank, hblank, -⟩ := Text.exists_trimStart h.rest
    have hparts : h.declared = marker ++ (h.name ++ (before ++ (parameters ++
        ((behind ++ blank) ++ Text.trimStart h.rest)))) := by
      rw [hdeclared]
      nth_rewrite 1 [hblank]
      simp only [List.append_assoc]
    split at hcut
    · cases hcut
    · next text htext =>
      rw [htext] at hparts
      exact exists_source_of_block hparts hspelled.word hcut
    · exact exists_source_of_expression hparts hspelled.word hcut

end Graft.Declaration
