import Graft.Declaration.Header

/-!
# Where a declaration ends

Ends are found by the shape of lines, not by counting braces. A block that opens and closes on one
line ends there; any other block ends at the next line that is a closing brace. An expression ends at
the first line that ends in a semicolon, or before a blank line, or before a line that starts a
statement.
-/

namespace Graft.Declaration

/-- What stands before the parenthesis that closes one opened before this text, and the text from
that parenthesis on; `depth` more are open. -/
def untilCloseParen? : (depth : Nat) → Text → Option (Text × Text)
  | _, [] => none
  | depth, '(' :: rest =>
    (untilCloseParen? (depth + 1) rest).map fun (inside, tail) => ('(' :: inside, tail)
  | 0, ')' :: rest => some ([], ')' :: rest)
  | depth + 1, ')' :: rest =>
    (untilCloseParen? depth rest).map fun (inside, tail) => (')' :: inside, tail)
  | depth, c :: rest => (untilCloseParen? depth rest).map fun (inside, tail) => (c :: inside, tail)

/-- What follows one `c` at the start of a text, if there is one. -/
def skipChar (c : Char) : Text → Text
  | [] => []
  | d :: rest => if d = c then rest else d :: rest

/-- Whether a line is a closing brace: `}`, at most one `)`, at most one `;`, blanks. -/
def isClosingLine (line : Text) : Bool :=
  match line with
  | '}' :: rest =>
    match skipChar '\r' ((skipChar ';' (skipChar ')' rest)).dropWhile Alphabet.isBlank) with
    | [] => true
    | c :: _ => c = '\n'
  | _ => false

/-- How many characters stand before the next line that is a closing brace. -/
def toClosingLine? : Text → Option Nat
  | [] => none
  | c :: rest =>
    if c = '\n' && isClosingLine rest then some 1 else (toClosingLine? rest).map (· + 1)

/-- A character that may follow a block on its own line. -/
def isBlockTail (c : Char) : Bool := c = ')' || c = ';' || Alphabet.isBlank c

/-- Whether nothing but punctuation and a comment follows a block that is closed on its own line. -/
def isQuietTail (tail : Text) : Bool :=
  let tail := Text.trimEnd (tail.dropWhile isBlockTail)
  tail.isEmpty || Text.startsWith "//" tail || Text.startsWith "/*" tail

/-- The length of a block that is opened and closed on the line that a text starts with. -/
def oneLineBlock? (line : Text) : Option Nat :=
  match Text.splitAtLast '}' line with
  | some (before, _ :: tail) =>
    let block := before ++ ['}']
    if Text.countChar '{' block = Text.countChar '}' block && isQuietTail tail then
      some block.length
    else none
  | _ => none

/-- The length of the block that starts at this opening brace, through its closing brace. -/
def blockLength? (text : Text) : Option Nat :=
  let line := text.takeWhile (· ≠ '\n')
  match oneLineBlock? line with
  | some length => some length
  | none => (toClosingLine? (text.dropWhile (· ≠ '\n'))).map fun n => line.length + n + 1

/-- Whether a line starts a statement of its own. -/
def startsStatement (line : Text) : Bool := line.head?.any Alphabet.isIdentifier

/-- The length of the expression made of these lines, of which `taken` characters are behind. The
text is the whole expression's; what is behind ends before its line breaks. -/
def expressionLengthFrom (text : Text) : (taken : Nat) → (isFirst : Bool) → List Text → Nat
  | taken, _, [] => (Text.trimEndBy Alphabet.isLineBreak (text.take taken)).length
  | taken, isFirst, line :: lines =>
    let content := Text.trimEnd line
    if !isFirst && (content.isEmpty || startsStatement line) then
      (Text.trimEndBy Alphabet.isLineBreak (text.take taken)).length
    else if Text.endsWith ';' content || lines.isEmpty then
      taken + (Text.trimEndBy Alphabet.isLineBreak line).length
    else
      expressionLengthFrom text (taken + line.length) false lines

/-- The length of the expression at the start of a text. -/
def expressionLength (text : Text) : Nat :=
  expressionLengthFrom text 0 true (Text.linesWithEnds text)

/-- A cut declaration and the text after it. -/
structure Cut where
  declaration : Declaration
  rest : Text
  deriving DecidableEq, Repr

namespace Header

/-- What a header's declaration spans when it ends where `rest` begins. -/
def spanUntil (h : Header) (rest : Text) : Text :=
  h.declared.take (h.declared.length - rest.length)

/-- The declaration with a block for a body, where `text` starts at the opening brace. -/
def withBlock? (h : Header) (isGenerator : Bool) (parameters text : Text) : Option Cut := do
  let length ← blockLength? text
  let rest := text.drop length
  return ⟨⟨String.ofList h.name, h.spanUntil rest, h.isAsync, isGenerator, parameters,
    .block ((text.take length).drop 1)⟩, rest⟩

/-- The declaration with an expression for a body, where `text` starts at the expression. -/
def withExpression? (h : Header) (parameters text : Text) : Option Cut :=
  let length := expressionLength text
  let expression :=
    Text.trimEnd (Text.trimEndBy (· = ';') (Text.trimEnd (text.take length)))
  let rest := text.drop length
  if expression.isEmpty then none
  else some ⟨⟨String.ofList h.name, Text.trimEnd (h.spanUntil rest), h.isAsync, false, parameters,
    .expression expression⟩, rest⟩

/-- The declaration that a header starts, if its end can be found. -/
def cut? (h : Header) : Option Cut :=
  match h.kind with
  | .function isGenerator => do
    let (parameters, text) ← untilCloseParen? 0 h.rest
    h.withBlock? isGenerator parameters (text.dropWhile (· ≠ '{'))
  | .arrow parameters =>
    match Text.trimStart h.rest with
    | [] => none
    | '{' :: rest => h.withBlock? false parameters ('{' :: rest)
    | text => h.withExpression? parameters text

end Header

end Graft.Declaration
