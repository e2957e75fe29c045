import Graft.Proofs.Declaration.Balance
import Graft.Proofs.Declaration.Scanning

/-!
# Declarations whose ends are in plain sight

Parameters with balanced parentheses end at the parenthesis behind them, a block whose lines are indented
ends at the brace behind its lines, and an expression on one line ends at the semicolon behind it. Such
a declaration is cut there, whatever follows it.
-/

namespace Graft.Declaration

open Text (trimEnd trimEndBy linesWithEnds unlines)

variable {t rest parameters source : Text} {h : Header}

/-! ## Blocks -/

/-- A line of a block: nothing, or something behind a space or a tab. -/
structure BodyLine where
  text : Text
  oneLine : '\n' ∉ text
  indented : ∀ c ∈ text.head?, Alphabet.isBlank c = true

/-- What follows the opening brace of a block with these lines, through the closing brace. -/
def blockOf (body : List BodyLine) : Text :=
  '\n' :: (unlines (body.map BodyLine.text) ++ ['}'])

/-- Lines behind others are written behind them. -/
theorem unlines_append (lines later : List Text) :
    unlines (lines ++ later) = unlines lines ++ unlines later := by
  induction lines with
  | nil => rfl
  | cons line lines ih => simp [unlines, ih]

/-- The lines of a block, with what stands behind its closing brace. -/
theorem blockOf_append (body : List BodyLine) (ending : Text) :
    blockOf body ++ (ending ++ ['\n']) =
      '\n' :: unlines (body.map BodyLine.text ++ ['}' :: ending]) := by
  simp [blockOf, unlines_append, unlines]

/-- No header is read in a block. -/
theorem isQuiet_of_mem_body {body : List BodyLine} {ending line : Text} (hending : '\n' ∉ ending)
    (hline : line ∈ body.map BodyLine.text ++ ['}' :: ending]) : IsQuiet line := by
  rcases List.mem_append.mp hline with hline | hline
  · obtain ⟨l, -, rfl⟩ := List.mem_map.mp hline
    refine ⟨l.oneLine, fun c hc => ?_⟩
    have hblank : c = ' ' ∨ c = '\t' := by simpa [Alphabet.isBlank] using l.indented c hc
    rcases hblank with rfl | rfl <;> rfl
  · obtain rfl := List.mem_singleton.mp hline
    refine ⟨by simpa using hending, fun c hc => ?_⟩
    obtain rfl : '}' = c := by simpa using hc
    rfl

/-- Behind indented lines, a closing line is the next one. -/
theorem toClosingLine?_body (body : List BodyLine) (hrest : isClosingLine rest = true) :
    toClosingLine? ('\n' :: (unlines (body.map BodyLine.text) ++ rest)) =
      some ((unlines (body.map BodyLine.text)).length + 1) := by
  induction body with
  | nil =>
    rw [toClosingLine?, if_pos (by simpa [unlines] using hrest)]
    rfl
  | cons line body ih =>
    -- An indented line is no closing line, whatever braces it has.
    have hnot : ∀ t, isClosingLine (line.text ++ '\n' :: t) = false := by
      intro t
      cases htext : line.text with
      | nil => rfl
      | cons c text =>
        have hc : Alphabet.isBlank c = true := line.indented c (by simp [htext])
        have : c ≠ '}' := by
          rintro rfl
          cases hc
        unfold isClosingLine
        split
        · next heq => exact absurd (List.cons.inj heq).1 this
        · rfl
    have hstep : ∀ t, toClosingLine? ('\n' :: (line.text ++ '\n' :: t)) =
        (toClosingLine? ('\n' :: t)).map fun n => n + line.text.length + 1 := by
      intro t
      rw [toClosingLine?, if_neg (by simp [hnot]), toClosingLine?_along line.oneLine, Option.map_map]
      rfl
    rw [List.map_cons, unlines, List.append_assoc, List.cons_append, hstep, ih, Option.map_some]
    simp only [List.length_append, List.length_cons]
    congr 1
    omega

/-- A block with indented lines ends behind the brace that stands behind them. -/
theorem blockLength?_blockOf (body : List BodyLine) (hrest : isClosingLine ('}' :: rest) = true) :
    blockLength? ('{' :: (blockOf body ++ rest)) = some ((blockOf body).length + 1) := by
  have hbody := toClosingLine?_body body hrest
  have hline : ∀ t, ('{' :: '\n' :: t).takeWhile (· ≠ '\n') = ['{'] := fun t => by simp
  have hlater : ∀ t, ('{' :: '\n' :: t).dropWhile (· ≠ '\n') = '\n' :: t := fun t => by simp
  have hone : oneLineBlock? ['{'] = none := by decide
  unfold blockOf blockLength?
  rw [List.cons_append, List.append_assoc, List.singleton_append]
  dsimp only
  rw [hline, hone, hlater, hbody, Option.map_some]
  simp only [List.length_cons, List.length_append, List.length_nil]
  congr 1
  omega

/-- A declaration with such a block is cut behind it. -/
theorem withBlock?_blockOf (body : List BodyLine) (hrest : isClosingLine ('}' :: rest) = true)
    (hdeclared : h.declared = source ++ rest) (isGenerator : Bool) (parameters : Text) :
    h.withBlock? isGenerator parameters ('{' :: (blockOf body ++ rest)) =
      some ⟨⟨String.ofList h.name, source, h.isAsync, isGenerator, parameters,
        .block (blockOf body)⟩, rest⟩ := by
  rw [withBlock?_of_length (blockLength?_blockOf body hrest), spanUntil_eq hdeclared]

/-! ## Expressions -/

/-- An expression that starts and ends on one line, with a semicolon behind it. -/
structure IsExpression (e : Text) : Prop where
  oneLine : '\n' ∉ e
  ne_nil : e ≠ []
  head : ∀ c ∈ e.head?, Alphabet.isSpace c = false ∧ c ≠ '{'
  last : ∀ c ∈ e.getLast?, Alphabet.isSpace c = false ∧ c ≠ ';'

/-- An expression on one line ends behind its semicolon. -/
theorem expressionOf_append {e : Text} (he : '\n' ∉ e) (rest : Text) :
    expressionOf (e ++ ';' :: '\n' :: rest) = e ++ [';'] := by
  have hended : Text.Ended (e ++ [';', '\n']) := ⟨e ++ [';'], by simp [he], by simp⟩
  have hlines : linesWithEnds (e ++ ';' :: '\n' :: rest) = (e ++ [';', '\n']) :: linesWithEnds rest := by
    rw [← Text.linesWithEnds_ended_append hended]
    simp
  have hsplit : e ++ [';', '\n'] = (e ++ [';']) ++ ['\n'] := by simp
  have htrim : trimEnd (e ++ [';', '\n']) = e ++ [';'] := by
    rw [hsplit]
    exact Text.trimEndBy_eq (by simp; decide) (by simp; decide)
  have hbreak : trimEndBy Alphabet.isLineBreak (e ++ [';', '\n']) = e ++ [';'] := by
    rw [hsplit]
    exact Text.trimEndBy_eq (by simp; decide) (by simp; decide)
  unfold expressionOf
  rw [hlines, expressionFrom, htrim, if_neg (by simp), if_pos (by simp [Text.endsWith]), hbreak,
    List.nil_append]

/-- A declaration with such an expression is cut behind the semicolon. -/
theorem withExpression?_append {e : Text} (he : IsExpression e) (parameters : Text)
    (hdeclared : h.declared = (source ++ (e ++ [';'])) ++ '\n' :: rest) :
    h.withExpression? parameters (e ++ ';' :: '\n' :: rest) =
      some ⟨⟨String.ofList h.name, source ++ (e ++ [';']), h.isAsync, false, parameters,
        .expression e⟩, '\n' :: rest⟩ := by
  have hexpression := expressionOf_append he.oneLine rest
  have hdrop : (e ++ ';' :: '\n' :: rest).drop (expressionLength (e ++ ';' :: '\n' :: rest)) =
      '\n' :: rest := by
    have := expressionOf_append_drop (e ++ ';' :: '\n' :: rest)
    rw [hexpression] at this
    exact List.append_cancel_left (this.trans (by simp))
  have hbody : bodyOf (e ++ [';']) = e := by
    have hmark : trimEnd (e ++ [';']) = e ++ [';'] := Text.trimEndBy_of_getLast? (by simp; decide)
    unfold bodyOf
    rw [hmark, Text.trimEndBy_eq (fun c hc => by simpa using (he.last c hc).2) (by simp)]
    exact Text.trimEndBy_of_getLast? fun c hc => (he.last c hc).1
  have hsource : trimEnd (source ++ (e ++ [';'])) = source ++ (e ++ [';']) :=
    Text.trimEndBy_of_getLast? (by simp; decide)
  rw [withExpression?_eq, hexpression, hdrop, hbody, spanUntil_eq hdeclared, hsource, if_neg he.ne_nil]

/-! ## Declarations -/

variable {body : List BodyLine} {isGenerator : Bool}

/-- A function with balanced parameters and an indented block is cut behind the block. -/
theorem cut?_function (source : Text) (hkind : h.kind = .function isGenerator)
    (hbalanced : Text.Balanced parameters)
    (hfollow : h.rest = parameters ++ ')' :: ' ' :: '{' :: (blockOf body ++ rest))
    (hrest : isClosingLine ('}' :: rest) = true) (hdeclared : h.declared = source ++ rest) :
    h.cut? = some ⟨⟨String.ofList h.name, source, h.isAsync, isGenerator, parameters,
      .block (blockOf body)⟩, rest⟩ := by
  have hparen := untilCloseParen?_balanced hbalanced 0 (')' :: ' ' :: '{' :: (blockOf body ++ rest))
  have hbrace : (')' :: ' ' :: '{' :: (blockOf body ++ rest)).dropWhile (· ≠ '{') =
      '{' :: (blockOf body ++ rest) := by simp
  unfold Header.cut?
  rw [hkind, hfollow]
  dsimp only [Option.bind_eq_bind]
  rw [hparen, untilCloseParen?, Option.map_some, Option.bind_some, List.append_nil]
  dsimp only
  rw [hbrace]
  exact withBlock?_blockOf body hrest hdeclared isGenerator parameters

/-- An arrow function with an indented block is cut behind the block. -/
theorem cut?_block (source : Text) (hkind : h.kind = .arrow parameters)
    (hfollow : h.rest = ' ' :: '{' :: (blockOf body ++ rest))
    (hrest : isClosingLine ('}' :: rest) = true) (hdeclared : h.declared = source ++ rest) :
    h.cut? = some ⟨⟨String.ofList h.name, source, h.isAsync, false, parameters,
      .block (blockOf body)⟩, rest⟩ := by
  have htrim : Text.trimStart (' ' :: '{' :: (blockOf body ++ rest)) = '{' :: (blockOf body ++ rest) :=
    Header.trimStart_space (by simp; decide)
  rw [← hfollow] at htrim
  rw [cut?_arrow hkind htrim, if_pos rfl]
  exact withBlock?_blockOf body hrest hdeclared false parameters

/-- An arrow function with an expression on one line is cut behind the semicolon. -/
theorem cut?_expression {e : Text} (source : Text) (hkind : h.kind = .arrow parameters) (he : IsExpression e)
    (hfollow : h.rest = ' ' :: (e ++ ';' :: '\n' :: rest))
    (hdeclared : h.declared = (source ++ (e ++ [';'])) ++ '\n' :: rest) :
    h.cut? = some ⟨⟨String.ofList h.name, source ++ (e ++ [';']), h.isAsync, false, parameters,
      .expression e⟩, '\n' :: rest⟩ := by
  obtain ⟨c, behind, heq⟩ := List.exists_cons_of_ne_nil he.ne_nil
  have hc := he.head c (by simp [heq])
  have htrim : Text.trimStart (' ' :: (e ++ ';' :: '\n' :: rest)) = e ++ ';' :: '\n' :: rest :=
    Header.trimStart_space (by simpa [heq] using hc.1)
  have hcut := withExpression?_append he parameters hdeclared
  rw [← hfollow, heq, List.cons_append] at htrim
  rw [heq, List.cons_append] at hcut
  rw [cut?_arrow hkind htrim, if_neg hc.2, hcut, heq]

end Graft.Declaration
