import Graft.Declaration.Bytewise
import Graft.Proofs.Declaration.Excerpts
import Graft.Proofs.Declaration.Latest
import Graft.Proofs.Text.Bytes

/-!
# Byte positions never fail

Extraction by byte positions never fails: it slices the file at places only and never counts parentheses
below zero. What it gives are the declarations of the file (`Bytewise.extract?_eq`).
-/

namespace Graft.Declaration

open Text (byteLength cutAt? slice? position? lastPosition? trimEnd trimEndBy linesWithEnds)

namespace Bytewise

/-! ## Closing parentheses -/

variable {file before t text rest parameters : Text} {h : Header} {m : Match} {isGenerator : Bool}

/-- Positions are counted on from the bytes of the first character. -/
theorem map_position_cons (position : Nat) (c : Char) (found : Option (Text × Text)) :
    (found.map fun parts => position + c.utf8Size + byteLength parts.1) =
      (found.map fun parts => (c :: parts.1, parts.2)).map fun parts =>
        position + byteLength parts.1 := by
  rw [Option.map_map]
  congr 1
  funext parts
  simp [Nat.add_assoc]

/-- With one parenthesis open, the count does not go below zero. -/
theorem closeParenFrom?_eq (depth position : Nat) (t : Text) :
    closeParenFrom? (depth + 1) position t =
      some ((untilCloseParen? depth t).map fun parts => position + byteLength parts.1) := by
  induction t generalizing depth position with
  | nil => rfl
  | cons c t ih =>
    -- The positions count one parenthesis more, the one that the header ends with.
    unfold closeParenFrom?
    by_cases hopen : c = '('
    · subst hopen
      rw [if_pos rfl, ih, map_position_cons]
      rfl
    · rw [if_neg hopen]
      by_cases hclose : c = ')'
      · subst hclose
        rw [if_pos rfl]
        cases depth with
        | zero => rfl
        | succ depth =>
          simp only [Nat.add_one_ne_zero, if_false]
          rw [ih, map_position_cons]
          rfl
      · rw [if_neg hclose, ih, map_position_cons, untilCloseParen?_other hopen hclose]

/-- The parenthesis that closes the one in front of `rest`. -/
theorem closeParen?_eq (before rest : Text) :
    closeParen? (before ++ '(' :: rest) (byteLength before) =
      some ((untilCloseParen? 0 rest).map fun parts => byteLength (before ++ '(' :: parts.1)) := by
  unfold closeParen?
  rw [Text.cutAt?_append]
  show closeParenFrom? 0 (byteLength before) ('(' :: rest) = _
  unfold closeParenFrom?
  rw [if_pos rfl, closeParenFrom?_eq]
  simp only [Text.byteLength_append, Text.byteLength_cons, Nat.add_assoc]

/-! ## Blocks -/

/-- The end of a block on one line is where its length says. -/
theorem oneLineEnd?_eq (line : Text) :
    oneLineEnd? line =
      some ((oneLineBlock? line).map fun n => byteLength (line.take (n - 1))) := by
  unfold oneLineEnd? oneLineBlock?
  rw [Text.lastPosition?_eq]
  cases hsplit : Text.splitAtLast '}' line with
  | none => rfl
  | some parts =>
    obtain ⟨front, rest⟩ := parts
    obtain ⟨tail, rfl, -, rfl⟩ := Text.splitAtLast_eq_some hsplit
    have hbrace : byteLength front + 1 = byteLength (front ++ ['}']) := by
      rw [Text.byteLength_append]
      rfl
    have hblock := Text.slice?_append [] (front ++ ['}']) tail
    have htail := Text.slice?_append (front ++ ['}']) tail []
    simp only [List.nil_append, List.append_nil, List.append_assoc, List.singleton_append,
      Text.byteLength_nil] at hblock htail
    dsimp only [Option.map_some]
    rw [hbrace, hblock, htail]
    dsimp only [Option.bind_eq_bind, Option.bind_some]
    split
    · simp
    · rfl

/-- Searching from inside a line, the next closing line is the one that the text has. -/
theorem closingLineFrom?_eq (position : Nat) (t : Text) :
    closingLineFrom? false position t =
      (toClosingLine? t).map fun n => position + byteLength (t.take n) := by
  induction t generalizing position with
  | nil => rfl
  | cons c t ih =>
    have hnext : ((toClosingLine? t).map fun n => position + c.utf8Size + byteLength (t.take n)) =
        ((toClosingLine? t).map (· + 1)).map fun n => position + byteLength ((c :: t).take n) := by
      rw [Option.map_map]
      congr 1
      funext n
      simp [Nat.add_assoc]
    rw [closingLineFrom?, if_neg (by simp), toClosingLine?]
    by_cases hc : c = '\n'
    · subst hc
      by_cases hclosing : isClosingLine t = true
      · obtain ⟨rest, rfl⟩ := exists_of_isClosingLine hclosing
        simp [closingLineFrom?, hclosing]
      · -- A line that does not close is searched like any other text.
        have hline : closingLineFrom? true (position + '\n'.utf8Size) t =
            closingLineFrom? false (position + '\n'.utf8Size) t := by
          cases t with
          | nil => rfl
          | cons d t => simp [closingLineFrom?, hclosing]
        rw [decide_eq_true rfl, hline, ih, hnext, if_neg (by simp [hclosing])]
    · rw [decide_eq_false hc, ih, hnext, if_neg (by simp)]

/-- Behind the end of a line a closing line is searched as inside of one: the line feed is no brace. -/
theorem closingLineFrom?_lineEnd (position : Nat) (text : Text) :
    closingLineFrom? true position (text.dropWhile (· ≠ '\n')) =
      closingLineFrom? false position (text.dropWhile (· ≠ '\n')) := by
  have hfirst := List.head?_dropWhile_not (· ≠ '\n') text
  cases hdrop : text.dropWhile (· ≠ '\n') with
  | nil => rfl
  | cons c rest =>
    rw [hdrop] at hfirst
    obtain rfl : c = '\n' := by simpa using hfirst
    rfl

/-- The brace that closes the block at the start of `text` is where its length says. -/
theorem blockEnd?_eq (before text : Text) :
    blockEnd? (before ++ text) (byteLength before) =
      some ((blockLength? text).map fun n => byteLength (before ++ text.take (n - 1))) := by
  have hsplit : text = text.takeWhile (· ≠ '\n') ++ text.dropWhile (· ≠ '\n') :=
    List.takeWhile_append_dropWhile.symm
  -- The first line of the block ends at its line feed, or at the end of the file.
  have hlineEnd : byteLength before + (position? '\n' text).getD (byteLength text) =
      byteLength (before ++ text.takeWhile (· ≠ '\n')) := by
    rw [Text.position?_eq, Text.byteLength_append]
    split
    · next hnone =>
      rw [hnone, List.append_nil] at hsplit
      rw [← hsplit]
      rfl
    · rfl
  have hline : slice? (byteLength before) (byteLength (before ++ text.takeWhile (· ≠ '\n')))
      (before ++ text) = some (text.takeWhile (· ≠ '\n')) := by
    have := Text.slice?_append before (text.takeWhile (· ≠ '\n')) (text.dropWhile (· ≠ '\n'))
    rwa [← hsplit] at this
  have hlater : cutAt? (byteLength (before ++ text.takeWhile (· ≠ '\n'))) (before ++ text) =
      some (before ++ text.takeWhile (· ≠ '\n'), text.dropWhile (· ≠ '\n')) := by
    rw [Text.cutAt?_eq_some_iff, List.append_assoc, ← hsplit]
    exact ⟨rfl, rfl⟩
  unfold blockEnd?
  rw [Text.cutAt?_append]
  dsimp only [Option.bind_eq_bind, Option.bind_some]
  rw [hlineEnd, hline, Option.bind_some, oneLineEnd?_eq, Option.bind_some, hlater]
  unfold blockLength?
  dsimp only
  -- A block is closed on its first line, or by the first later line that starts with a brace.
  cases hone : oneLineBlock? (text.takeWhile (· ≠ '\n')) with
  | some n =>
    obtain ⟨front, tail, hfront, -, rfl⟩ := oneLineBlock?_eq_some hone
    rw [hfront] at hsplit
    rw [hfront, hsplit]
    simp
  | none =>
    dsimp only [Option.map_none]
    rw [Option.bind_some, closingLineFrom?_lineEnd, closingLineFrom?_eq, Option.map_map]
    congr 2
    funext n
    have htake : ∀ line later : Text, text = line ++ later →
        text.take (line.length + n + 1 - 1) = line ++ later.take n := by
      rintro line later rfl
      rw [Nat.add_sub_cancel, List.take_length_add_append]
    rw [Function.comp_apply, htake _ _ hsplit, ← List.append_assoc, Text.byteLength_append (before ++ _)]

/-! ## Expressions -/

/-- Lines with their ends are not empty. -/
theorem ne_nil_of_mem_linesWithEnds {line : Text} (h : line ∈ linesWithEnds t) : line ≠ [] := by
  induction t with
  | nil => cases h
  | cons c t ih =>
    rw [linesWithEnds] at h
    split at h
    · rcases List.mem_cons.mp h with rfl | h
      · simp
      · exact ih h
    · cases hlines : linesWithEnds t with
      | nil =>
        rw [hlines] at h
        rw [List.mem_singleton.mp h]
        simp
      | cons first others =>
        rw [hlines] at h ih
        rcases List.mem_cons.mp h with rfl | h
        · simp
        · exact ih (List.mem_cons_of_mem first h)

/-- A text with a character that is no line break is backed up to a place in it. -/
theorem backUp?_eq {front : Text} (hfront : ∃ c ∈ front, Alphabet.isLineBreak c = false)
    (before after : Text) :
    backUp? (before ++ (front ++ after)) (byteLength (before ++ front)) =
      some (byteLength (before ++ trimEndBy Alphabet.isLineBreak front)) := by
  have hne : trimEndBy Alphabet.isLineBreak front ≠ [] := by
    obtain ⟨c, hc, hbreak⟩ := hfront
    intro hnil
    rw [Text.trimEndBy_eq_nil_iff.mp hnil c hc] at hbreak
    cases hbreak
  unfold backUp?
  rw [← List.append_assoc, Text.cutAt?_append, ← Text.trimEndBy_append_of_ne_nil hne]
  rfl

/-- A file ends behind a line exactly if no lines are left. -/
theorem byteLength_lines_le_iff {lines : List Text} (hlines : ∀ line ∈ lines, line ≠ [])
    (before line : Text) :
    byteLength (before ++ (line :: lines).flatten) ≤ byteLength (before ++ line) ↔ lines.isEmpty = true := by
  rw [List.flatten_cons, ← List.append_assoc, Text.byteLength_append (before ++ line)]
  cases lines with
  | nil => simp
  | cons second lines =>
    have := Text.byteLength_pos (hlines second (by simp))
    rw [List.flatten_cons, Text.byteLength_append]
    simp
    omega

/-- Where an expression ends that has a character that is no line break, behind it or in the first line
that it goes on with. -/
theorem expressionEndFrom?_eq (before front : Text) (isFirst : Bool) (lines : List Text)
    (hlines : ∀ line ∈ lines, line ≠ [])
    (hstarted : (∃ c ∈ front, Alphabet.isLineBreak c = false) ∨ (isFirst = true ∧
      ∃ line ∈ lines.head?, ∃ c ∈ line, Alphabet.isLineBreak c = false)) :
    expressionEndFrom? (before ++ (front ++ lines.flatten)) (byteLength (before ++ front)) isFirst lines =
      some (byteLength (before ++ expressionFrom front isFirst lines)) := by
  induction lines generalizing front isFirst with
  | nil =>
    rcases hstarted with hfront | ⟨-, line, hline, -⟩
    · exact backUp?_eq hfront before []
    · cases hline
  | cons line lines ih =>
    -- A line that starts a statement ends an expression that has started; any other line is taken in.
    rw [expressionEndFrom?, expressionFrom]
    split
    · next hstops =>
      rcases hstarted with hfront | ⟨rfl, -⟩
      · exact backUp?_eq hfront before _
      · simp at hstops
    · have hposition : byteLength (before ++ front) + byteLength line =
          byteLength (before ++ (front ++ line)) := by
        rw [← List.append_assoc, ← Text.byteLength_append]
      have hend : byteLength (before ++ front) + byteLength (trimEndBy Alphabet.isLineBreak line) =
          byteLength (before ++ (front ++ trimEndBy Alphabet.isLineBreak line)) := by
        rw [← List.append_assoc, ← Text.byteLength_append]
      have hfile : before ++ (front ++ (line :: lines).flatten) =
          before ++ ((front ++ line) ++ lines.flatten) := by simp
      have hwhole : byteLength (before ++ (front ++ (line :: lines).flatten)) ≤
          byteLength (before ++ (front ++ line)) ↔ lines.isEmpty = true := by
        rw [← List.append_assoc, ← List.append_assoc]
        exact byteLength_lines_le_iff (fun l hl => hlines l (List.mem_cons_of_mem line hl)) _ _
      dsimp only
      rw [hposition, hend]
      by_cases hsemicolon : Text.endsWith ';' (trimEnd line) = true
      · rw [if_pos hsemicolon, if_pos (by simp [hsemicolon])]
      · rw [if_neg hsemicolon]
        by_cases hlast : lines.isEmpty = true
        · rw [if_pos (hwhole.mpr hlast), if_pos (by simp [hlast])]
        · rw [if_neg fun h => hlast (hwhole.mp h), if_neg (by simp [hsemicolon, hlast]), hfile]
          refine ih (front ++ line) false (fun l hl => hlines l (List.mem_cons_of_mem line hl)) (Or.inl ?_)
          rcases hstarted with ⟨c, hc, hbreak⟩ | ⟨-, first, hfirst, c, hc, hbreak⟩
          · exact ⟨c, List.mem_append_left line hc, hbreak⟩
          · obtain rfl : line = first := by simpa using hfirst
            exact ⟨c, List.mem_append_right front hc, hbreak⟩

/-- An expression that does not start with white space ends where its length says. -/
theorem expressionEnd?_eq (before : Text) {c : Char} (hc : Alphabet.isSpace c = false) (rest : Text) :
    expressionEnd? (before ++ c :: rest) (byteLength before) =
      some (byteLength (before ++ expressionOf (c :: rest))) := by
  have hbreak := Text.isLineBreak_of_isSpace hc
  have hfirst : ∃ line ∈ (linesWithEnds (c :: rest)).head?, ∃ d ∈ line, Alphabet.isLineBreak d = false := by
    obtain ⟨more, others, hlines, -⟩ :=
      Text.exists_linesWithEnds_append (by simp) (Text.lineFeed_notMem_singleton hc) rest
    exact ⟨[c] ++ more, by rw [← List.singleton_append, hlines]; rfl, c, by simp, hbreak⟩
  have := expressionEndFrom?_eq before [] true (linesWithEnds (c :: rest))
    (fun line hline => ne_nil_of_mem_linesWithEnds hline) (Or.inr ⟨rfl, hfirst⟩)
  rw [List.nil_append, List.append_nil, Text.flatten_linesWithEnds] at this
  unfold expressionEnd?
  rw [Text.cutAt?_append]
  exact this

/-! ## Declarations -/

/-- What a cut comes to by positions: its declaration, and where the rest of the file starts. -/
def located (file : Text) (found : Option Cut) : Option (Declaration × Nat) :=
  found.map fun done => (done.declaration, byteLength file - byteLength done.rest)

/-- The rest of a file starts behind what stands before it. -/
theorem located_some {front : Text} (hfile : file = front ++ rest) (d : Declaration) :
    located file (some ⟨d, rest⟩) = some (d, byteLength front) := by
  rw [located, Option.map_some, hfile, Text.byteLength_append, Nat.add_sub_cancel]

/-- The stretch of a file between two places. -/
theorem slice?_eq {start stop : Nat} (front inside rest : Text) (hfile : file = front ++ (inside ++ rest))
    (hstart : start = byteLength front) (hstop : stop = byteLength (front ++ inside)) :
    slice? start stop file = some inside := by
  rw [hfile, hstart, hstop]
  exact Text.slice?_append front inside rest

/-- A block that starts with an opening brace ends behind its last character. -/
theorem exists_blockEnd? {body : Text} (hlength : blockLength? ('{' :: (body ++ rest)) = some (body.length + 1))
    (hlast : body.getLast? = some '}') (before : Text) :
    ∃ last, blockEnd? (before ++ '{' :: (body ++ rest)) (byteLength before) = some (some last) ∧
      last + 1 = byteLength (before ++ '{' :: body) := by
  obtain ⟨inside, rfl⟩ := List.getLast?_eq_some_iff.mp hlast
  refine ⟨byteLength (before ++ '{' :: inside), ?_, ?_⟩
  · rw [blockEnd?_eq, hlength]
    simp
  · rw [← List.cons_append, ← List.append_assoc, Text.byteLength_append (before ++ _)]
    rfl

/-- A declaration with a block is cut at the same places. -/
theorem block?_eq {keyword front : Text} (hfile : file = keyword ++ m.header.declared)
    (hdeclared : m.header.declared = front ++ '{' :: text) (hkeyword : m.keyword = byteLength keyword)
    (isGenerator : Bool) (parameters : Text) :
    block? file m isGenerator parameters (byteLength (keyword ++ front)) =
      some (located file (m.header.withBlock? isGenerator parameters ('{' :: text))) := by
  have hopened : file = (keyword ++ front) ++ '{' :: text := by
    rw [hfile, hdeclared, List.append_assoc]
  unfold block?
  cases hlength : blockLength? ('{' :: text) with
  | none =>
    rw [hopened, blockEnd?_eq, withBlock?_eq, hlength]
    rfl
  | some n =>
    -- The file is the keyword, what is declared up to the brace, the block and the rest; each slice is one of
    -- these pieces.
    obtain ⟨body, rest, rfl, rfl, hlast⟩ := blockLength?_brace hlength
    obtain ⟨last, hend, hstop⟩ := exists_blockEnd? hlength hlast (keyword ++ front)
    have hsource : m.header.declared = (front ++ '{' :: body) ++ rest := by simp [hdeclared]
    have htext : slice? m.keyword (last + 1) file = some (front ++ '{' :: body) :=
      slice?_eq keyword _ rest (by rw [hfile, hsource]) hkeyword (by rw [hstop, List.append_assoc])
    have hbody : slice? (byteLength (keyword ++ front) + 1) (last + 1) file = some body := by
      refine slice?_eq ((keyword ++ front) ++ ['{']) body rest ?_ ?_ ?_
      · rw [hopened]
        simp
      · rw [Text.byteLength_append (keyword ++ front)]
        rfl
      · rw [hstop]
        simp
    have hwhole : file = (keyword ++ (front ++ '{' :: body)) ++ rest := by
      rw [hfile, hsource]
      simp
    rw [withBlock?_of_length hlength, hopened, hend, ← hopened, located_some hwhole, spanUntil_eq hsource]
    simp only [Option.bind_eq_bind, Option.bind_some, htext, hbody]
    rw [hstop, List.append_assoc]
    rfl

/-- A declaration with an expression is cut at the same places. -/
theorem expression?_eq {keyword front : Text} {c : Char} (hfile : file = keyword ++ m.header.declared)
    (hdeclared : m.header.declared = front ++ c :: text) (hc : Alphabet.isSpace c = false)
    (hkeyword : m.keyword = byteLength keyword) (parameters : Text) :
    expression? file m parameters (byteLength (keyword ++ front)) =
      some (located file (m.header.withExpression? parameters (c :: text))) := by
  have hstart : file = (keyword ++ front) ++ c :: text := by
    rw [hfile, hdeclared, List.append_assoc]
  have hsplit := (expressionOf_append_drop (c :: text)).symm
  have hend : expressionEnd? file (byteLength (keyword ++ front)) =
      some (byteLength ((keyword ++ front) ++ expressionOf (c :: text))) := by
    rw [hstart]
    exact expressionEnd?_eq (keyword ++ front) hc text
  unfold expression?
  rw [withExpression?_eq, hend]
  -- From here on only the two parts matter that the text is split into, and not how they are found.
  generalize (c :: text).drop (expressionLength (c :: text)) = rest at hsplit ⊢
  generalize expressionOf (c :: text) = kept at hsplit ⊢
  have hsource : m.header.declared = (front ++ kept) ++ rest := by
    rw [hdeclared, hsplit, List.append_assoc]
  have hkept : slice? (byteLength (keyword ++ front)) (byteLength ((keyword ++ front) ++ kept)) file =
      some kept :=
    slice?_eq (keyword ++ front) kept rest (by rw [hfile, hsource]; simp) rfl rfl
  have htext : slice? m.keyword (byteLength ((keyword ++ front) ++ kept)) file = some (front ++ kept) :=
    slice?_eq keyword (front ++ kept) rest (by rw [hfile, hsource]) hkeyword (by rw [List.append_assoc])
  have hwhole : file = ((keyword ++ front) ++ kept) ++ rest := by
    rw [hfile, hsource]
    simp
  simp only [Option.bind_eq_bind, Option.bind_some, hkept, htext]
  rw [spanUntil_eq hsource, show trimEnd (trimEndBy (· = ';') (trimEnd kept)) = bodyOf kept from rfl]
  -- A body that is nothing but marks is no declaration, by text and by positions.
  by_cases hnil : bodyOf kept = []
  · rw [if_pos hnil, if_pos (by simpa using hnil)]
    rfl
  · rw [if_neg hnil, if_neg (by simpa using hnil), located_some hwhole]
    rfl

/-- A function is cut at the same places, where `text` is what follows the opening parenthesis. -/
theorem function?_eq {keyword : Text} (front : Text) (hfile : file = keyword ++ m.header.declared)
    (hdeclared : m.header.declared = front ++ '(' :: m.header.rest)
    (hkeyword : m.keyword = byteLength keyword) (hstop : m.stop = byteLength (keyword ++ (front ++ ['('])))
    (hkind : m.header.kind = .function isGenerator) :
    bound? file m = some (located file m.header.cut?) := by
  have hopened : file = (keyword ++ front) ++ '(' :: m.header.rest := by
    rw [hfile, hdeclared, List.append_assoc]
  have hbefore : m.stop = byteLength (keyword ++ front) + 1 := by
    rw [hstop, ← List.append_assoc, Text.byteLength_append (keyword ++ front)]
    rfl
  have hparen : closeParen? file (byteLength (keyword ++ front)) =
      some ((untilCloseParen? 0 m.header.rest).map fun parts =>
        byteLength ((keyword ++ front) ++ '(' :: parts.1)) := by
    rw [hopened, closeParen?_eq]
  unfold bound? Header.cut?
  simp only [hkind]
  rw [hbefore, if_pos (Nat.le_add_left 1 _), Nat.add_sub_cancel]
  simp only [Option.bind_eq_bind, Option.bind_some, hparen]
  cases hclose : untilCloseParen? 0 m.header.rest with
  | none => rfl
  | some parts =>
    obtain ⟨inside, tail⟩ := parts
    obtain ⟨-, -, hrest⟩ := untilCloseParen?_eq_some hclose
    have hparameters : slice? (byteLength (keyword ++ front) + 1)
        (byteLength ((keyword ++ front) ++ '(' :: inside)) file = some inside := by
      refine slice?_eq ((keyword ++ front) ++ ['(']) inside tail ?_ ?_ ?_
      · rw [hopened, hrest]
        simp
      · rw [Text.byteLength_append (keyword ++ front)]
        rfl
      · simp
    have hbehind : cutAt? (byteLength ((keyword ++ front) ++ '(' :: inside)) file =
        some ((keyword ++ front) ++ '(' :: inside, tail) := by
      rw [Text.cutAt?_eq_some_iff, hopened, hrest]
      exact ⟨by simp, rfl⟩
    simp only [Option.map_some, Option.bind_some, hparameters, hbehind, Text.position?_eq]
    -- The block is the first one behind the parameters.
    rcases dropWhile_brace tail with hnone | ⟨text, htext⟩
    · rw [hnone]
      rfl
    · have htail : tail = tail.takeWhile (· ≠ '{') ++ '{' :: text := by
        rw [← htext, List.takeWhile_append_dropWhile]
      have hsplit : m.header.declared =
          (front ++ '(' :: (inside ++ tail.takeWhile (· ≠ '{'))) ++ '{' :: text := by
        rw [hdeclared, hrest]
        nth_rewrite 1 [htail]
        simp
      have := block?_eq hfile hsplit hkeyword isGenerator inside
      rw [htext, if_neg (by simp)]
      convert this using 3
      simp [Nat.add_assoc]

/-- An arrow function is cut at the same places. -/
theorem arrow?_eq {keyword : Text} (front : Text) (hfile : file = keyword ++ m.header.declared)
    (hdeclared : m.header.declared = front ++ m.header.rest)
    (hkeyword : m.keyword = byteLength keyword) (hstop : m.stop = byteLength (keyword ++ front))
    (hkind : m.header.kind = .arrow parameters) :
    bound? file m = some (located file m.header.cut?) := by
  obtain ⟨blank, hrest, -⟩ := Text.exists_trimStart m.header.rest
  have hbody : m.header.declared = (front ++ blank) ++ Text.trimStart m.header.rest := by
    rw [List.append_assoc, ← hrest, hdeclared]
  have hbehind : cutAt? m.stop file = some (keyword ++ front, m.header.rest) := by
    rw [Text.cutAt?_eq_some_iff, hfile, hdeclared]
    exact ⟨by simp, hstop⟩
  -- The body starts behind the white space after the arrow.
  have hstart : m.stop + byteLength m.header.rest - byteLength (Text.trimStart m.header.rest) =
      byteLength (keyword ++ (front ++ blank)) := by
    rw [hstop, ← Text.byteLength_append]
    nth_rewrite 1 [hrest]
    simp only [Text.byteLength_append]
    omega
  have hcut : cutAt? (byteLength (keyword ++ (front ++ blank))) file =
      some (keyword ++ (front ++ blank), Text.trimStart m.header.rest) := by
    rw [Text.cutAt?_eq_some_iff, hfile, hbody]
    exact ⟨by simp, rfl⟩
  have hwhole : byteLength file =
      byteLength (keyword ++ (front ++ blank)) + byteLength (Text.trimStart m.header.rest) := by
    rw [← Text.byteLength_append, hfile, hbody]
    simp only [List.append_assoc]
  have hfirst := Text.trimStart_head? m.header.rest
  unfold bound? Header.cut?
  simp only [hkind, Option.bind_eq_bind, Option.bind_some, hbehind, hstart, hcut, hwhole]
  generalize Text.trimStart m.header.rest = body at hbody hfirst ⊢
  cases body with
  | nil => exact if_pos (Nat.le_refl _)
  | cons c text =>
    have := c.utf8Size_pos
    rw [if_neg (by rw [Text.byteLength_cons]; omega)]
    by_cases hc : c = '{'
    · subst hc
      exact block?_eq hfile hbody hkeyword false parameters
    · rw [if_neg (by simpa [Text.startsWith, Text.follow?, Text.after?] using Ne.symm hc)]
      have := expression?_eq hfile hbody (hfirst c rfl) hkeyword parameters
      rw [this]
      split
      · next heq => cases heq
      · next heq => exact absurd (List.cons.inj heq).1 hc
      · rfl

/-- What a header starts is cut at the same places. -/
theorem bound?_eq {keyword marker opening : Text} (hfile : file = keyword ++ m.header.declared)
    (hspelled : m.header.Spelled marker opening) (hkeyword : m.keyword = byteLength keyword)
    (hstop : m.stop = byteLength (keyword ++ (marker ++ (m.header.name ++ opening)))) :
    bound? file m = some (located file m.header.cut?) := by
  have hdeclared := hspelled.declared
  have hopening := hspelled.kind
  cases hkind : m.header.kind with
  | function isGenerator =>
    rw [hkind] at hopening
    obtain ⟨before, rfl⟩ := hopening
    refine function?_eq (marker ++ (m.header.name ++ before)) hfile ?_ hkeyword ?_ hkind
    · rw [hdeclared]
      simp
    · rw [hstop]
      simp only [List.append_assoc]
  | arrow parameters =>
    refine arrow?_eq (marker ++ (m.header.name ++ opening)) hfile ?_ hkeyword hstop hkind
    rw [hdeclared]
    simp

/-! ## The scan -/

/-- The file is covered up to `covered`, which is `cut` characters into `t` if it is not behind. -/
structure Covers (covered cut : Nat) (before t : Text) : Prop where
  le : covered ≤ byteLength (before ++ t.take cut)
  ge : 0 < cut → byteLength (before ++ t.take cut) ≤ covered

/-- One character further, one character less is covered. -/
theorem Covers.next {covered cut : Nat} {c : Char} (h : Covers covered cut before (c :: t)) :
    Covers covered (cut - 1) (before ++ [c]) t := by
  obtain ⟨hle, hge⟩ := h
  cases cut with
  | zero =>
    rw [List.take_zero, List.append_nil] at hle
    refine ⟨Nat.le_trans hle ?_, fun h => absurd h (Nat.lt_irrefl 0)⟩
    simp only [Text.byteLength_append, Nat.add_assoc]
    exact Nat.le_add_right _ _
  | succ cut =>
    have htake : (before ++ [c]) ++ t.take cut = before ++ (c :: t).take (cut + 1) := by simp
    rw [Nat.add_sub_cancel]
    exact ⟨by rw [htake]; exact hle, fun _ => by rw [htake]; exact hge (Nat.succ_pos cut)⟩

/-- A line is covered exactly if some of its characters are. -/
theorem Covers.lt_iff {covered cut : Nat} {c : Char} (h : Covers covered cut before (c :: t)) :
    byteLength before < covered ↔ 0 < cut := by
  obtain ⟨hle, hge⟩ := h
  cases cut with
  | zero =>
    rw [List.take_zero, List.append_nil] at hle
    omega
  | succ cut =>
    have hcovered := hge (Nat.succ_pos cut)
    have := c.utf8Size_pos
    rw [List.take_succ_cons, Text.byteLength_append, Text.byteLength_cons] at hcovered
    omega

/-- Where no header is read, the search goes on with the next character. -/
theorem matchesFrom_plain {lineStart : Bool} {c : Char}
    (hread : lineStart = true → Header.read? (c :: rest) = none) (position : Nat) :
    matchesFrom 0 position lineStart (c :: rest) =
      matchesFrom 0 (position + c.utf8Size) (c = '\n') rest := by
  cases lineStart with
  | false => rfl
  | true => rw [matchesFrom, if_pos rfl, hread rfl]

/-- A header that is read at the start of a line is found with its places in the file. -/
theorem exists_matchesFrom {c : Char} (hfile : file = before ++ c :: rest)
    (hread : Header.read? (c :: rest) = some h) :
    ∃ m, m.start = byteLength before ∧ bound? file m = some (located file h.cut?) ∧
      matchesFrom 0 (byteLength before) true (c :: rest) =
        m :: matchesFrom (rest.length - h.rest.length) (byteLength before + c.utf8Size) (c = '\n') rest := by
  obtain ⟨exported, marker, opening, hline, -, hspelled⟩ := Header.exists_spelled hread
  have hwhole : byteLength before + byteLength (c :: rest) = byteLength file := by
    rw [hfile, Text.byteLength_append]
  have hdeclared : file = (before ++ exported) ++ h.declared := by
    rw [hfile, hline, List.append_assoc]
  have hrest : file =
      ((before ++ exported) ++ (marker ++ (h.name ++ opening))) ++ h.rest := by
    rw [hdeclared, hspelled.declared]
    simp only [List.append_assoc]
  -- The places are counted from the end of the file, since the texts that a header holds are what is left.
  have hkeyword : byteLength file - byteLength h.declared = byteLength (before ++ exported) := by
    rw [hdeclared, Text.byteLength_append, Nat.add_sub_cancel]
  have hstop : byteLength file - byteLength h.rest =
      byteLength ((before ++ exported) ++ (marker ++ (h.name ++ opening))) := by
    rw [hrest, Text.byteLength_append _ h.rest, Nat.add_sub_cancel]
  refine ⟨⟨byteLength before, byteLength file - byteLength h.declared,
    byteLength file - byteLength h.rest, h⟩, rfl, bound?_eq hdeclared hspelled hkeyword hstop, ?_⟩
  rw [matchesFrom, if_pos rfl, hread]
  dsimp only
  rw [hwhole]

/-- The rest of a cut starts where its last character is covered. -/
theorem covers_of_cut {c : Char} {done : Cut} (hfile : file = before ++ c :: rest)
    (hread : Header.read? (c :: rest) = some h) (hcut : h.cut? = some done) :
    Covers (byteLength file - byteLength done.rest) (rest.length - done.rest.length) (before ++ [c]) rest := by
  have hwhole : c :: rest = [] ++ c :: rest := rfl
  obtain ⟨e, -, -, hline⟩ := exists_excerpt hwhole (by simp) hread hcut
  obtain ⟨d, behind, hsource⟩ := List.exists_cons_of_ne_nil
    (List.append_ne_nil_of_right_ne_nil e.exported e.source_ne_nil)
  rw [hsource] at hline
  obtain ⟨rfl, hrest⟩ := List.cons.inj hline
  have hcovered : byteLength file - byteLength done.rest = byteLength ((before ++ [c]) ++ behind) := by
    have : file = ((before ++ [c]) ++ behind) ++ done.rest := by
      rw [hfile, hrest]
      simp
    rw [this, Text.byteLength_append, Nat.add_sub_cancel]
  have htake : rest.take (rest.length - done.rest.length) = behind := by
    rw [hrest, List.append_eq, List.length_append, Nat.add_sub_cancel, List.take_left]
  exact ⟨by rw [hcovered, htake], fun _ => by rw [hcovered, htake]⟩

/-- By positions, the scan cuts the same declarations. -/
theorem declarations?_eq (header cut covered : Nat) (lineStart : Bool) (before : Text)
    (hfile : file = before ++ t) (hcovers : Covers covered cut before t) :
    declarations? file covered (matchesFrom header (byteLength before) lineStart t) =
      some ((attemptsFrom header cut (byteLength before) lineStart t).filterMap Attempt.declaration?) := by
  induction t generalizing header cut covered lineStart before with
  | nil => cases header <;> rfl
  | cons c rest ih =>
    have hbefore : byteLength (before ++ [c]) = byteLength before + c.utf8Size := by simp
    -- One character further, the same part of the file is covered.
    have hnext : ∀ header cut covered, Covers covered cut (before ++ [c]) rest →
        declarations? file covered
            (matchesFrom header (byteLength before + c.utf8Size) (c = '\n') rest) =
          some ((attemptsFrom header cut (byteLength before + c.utf8Size) (c = '\n') rest).filterMap
            Attempt.declaration?) := by
      intro header cut covered hcovers
      rw [← hbefore]
      exact ih header cut covered (c = '\n') (before ++ [c]) (by rw [hfile]; simp) hcovers
    cases header with
    | succ header => exact hnext header (cut - 1) covered hcovers.next
    | zero =>
      rcases attemptsFrom_cases cut (byteLength before) lineStart c rest with
        ⟨hplain, heq⟩ | ⟨h, rfl, hread, hfound⟩
      · rw [heq, matchesFrom_plain hplain]
        exact hnext 0 (cut - 1) covered hcovers.next
      · obtain ⟨m, hstart, hbound, hmatches⟩ := exists_matchesFrom hfile hread
        rw [hmatches, declarations?, hstart]
        rcases hfound with ⟨hcut, heq⟩ | ⟨rfl, done, hdone, heq⟩ | ⟨rfl, hdone, heq⟩
        · rw [heq, if_pos (hcovers.lt_iff.mpr hcut)]
          exact hnext _ (cut - 1) covered hcovers.next
        · rw [heq, if_neg (by rw [hcovers.lt_iff]; exact Nat.lt_irrefl 0), hbound, hdone]
          have := hnext (rest.length - h.rest.length) (rest.length - done.rest.length)
            (byteLength file - byteLength done.rest) (covers_of_cut hfile hread hdone)
          simp only [located, Option.bind_eq_bind, Option.bind_some, Option.map_some, this]
          rfl
        · rw [heq, if_neg (by rw [hcovers.lt_iff]; exact Nat.lt_irrefl 0), hbound, hdone]
          exact hnext _ 0 covered hcovers.next

/-- By positions, the declarations of a file are the same, and no slice fails. -/
theorem extract?_eq (file : Text) : extract? file = some (extract file) := by
  have hscan : declarations? file 0 (matchesFrom 0 0 true file) =
      some ((attempts file).filterMap Attempt.declaration?) :=
    declarations?_eq 0 0 0 true [] rfl ⟨Nat.zero_le _, fun h => absurd h (Nat.lt_irrefl 0)⟩
  unfold extract?
  rw [hscan]
  rfl

end Bytewise

/-- The declarations of a scan are those of its cuts. -/
theorem filterMap_declaration? (found : List Attempt) :
    found.filterMap Attempt.declaration? = (found.filterMap Attempt.cut?).map fun cut => cut.2.2 := by
  rw [List.map_filterMap]
  congr 1
  funext attempt
  cases attempt <;> rfl

/-- Extraction never leaves the file, cuts inside a character or counts parentheses below zero. What it
cuts are excerpts of the file, none of them empty, each one behind the one before; the declarations by
name are the last one of each name, where the name first occurs. -/
theorem extract_excerpts (file : Text) :
    Bytewise.extract? file = some (extract file) ∧
      ∃ excerpts : List (Excerpt file),
        (attempts file).filterMap Attempt.cut? =
          excerpts.map (fun e => (e.start, e.stop, e.declaration)) ∧
        (∀ e ∈ excerpts, e.start < e.stop) ∧
        excerpts.Pairwise (fun e later => e.stop ≤ later.start) ∧
        extract file = latest (excerpts.map fun e => e.declaration) := by
  obtain ⟨excerpts, hcuts, hpairwise⟩ := exists_excerpts file
  refine ⟨Bytewise.extract?_eq file, excerpts, hcuts, fun e _ => e.start_lt_stop, hpairwise, ?_⟩
  unfold extract
  rw [byName_eq_latest, filterMap_declaration?, hcuts, List.map_map]
  rfl

end Graft.Declaration
