import Graft.Import

/-!
# Import statements and the entry's own text

A statement is any import at the start of a line: named, default, namespace or for its effect alone.
Taking the statements out of an entry file, and a closing `export default <name>`, leaves the object
that members are put into.
-/

namespace Graft.Import

/-- A character that may stand between `import` and `from`. -/
def isClauseChar (c : Char) : Bool :=
  Alphabet.isWord c || c = '$' || c = '*' || Alphabet.isSpace c || c = ',' || c = '{' || c = '}'

/-- Whether the text between `import` and the specifier is white space alone, or a clause in white
space followed by `from` and white space. -/
def isGap (gap : Text) : Bool :=
  if gap.all Alphabet.isSpace then !gap.isEmpty
  else
    let body := Text.trimEnd gap
    match Text.after? "from".toList.reverse body.reverse with
    | some (last :: middle) =>
      body.length < gap.length && gap.all isClauseChar && 2 ≤ middle.length && Alphabet.isSpace last &&
        (gap.head?.any Alphabet.isSpace)
    | _ => false

/-- What follows one line end at the start of a text, if there is one. -/
def skipLineEnd : Text → Text
  | '\r' :: '\n' :: rest => rest
  | '\n' :: rest => rest
  | rest => rest

/-- What follows one semicolon at the start of a text, if there is one. -/
def skipSemicolon : Text → Text
  | ';' :: rest => rest
  | rest => rest

/-- What follows the import statement at the start of a line: blanks, `import`, the gap, the quoted
specifier, blanks around one semicolon, and one line end. -/
def afterStatement? (line : Text) : Option Text := do
  let text ← Text.follow? "import" (line.dropWhile Alphabet.isBlank)
  let gap := text.takeWhile fun c => !Alphabet.isQuote c
  if isGap gap then
    let (_, text) ← readQuoted? (text.drop gap.length)
    let text := skipSemicolon (text.dropWhile Alphabet.isBlank)
    return skipLineEnd (text.dropWhile Alphabet.isBlank)
  else
    none

/-- Recognises an import statement where a line starts. -/
def statement : Scan.Recogniser Unit := fun lineStart text =>
  if lineStart then Scan.ofReader (fun t => (afterStatement? t).map ((), ·)) text else none

/-- The text without its import statements. -/
def strip (text : Text) : Text := Scan.remove statement text

/-- Whether a line and all that follows it is one `export default <name>`, with at most one
semicolon after it. -/
def isClosingExport (line : Text) : Bool :=
  let name? : Option Text := do
    let text ← Text.follow? "export" (line.dropWhile Alphabet.isBlank)
    let text ← Text.spaces? text
    let text ← Text.follow? "default" text
    Text.spaces? text
  match name? with
  | some (c :: rest) =>
    (Alphabet.isAsciiLetter c || c = '_' || c = '$') &&
      (Text.trimStart (skipSemicolon ((rest.dropWhile fun d => Alphabet.isWord d || d = '$').dropWhile
        Alphabet.isBlank))).isEmpty
  | _ => false

/-- The text up to a closing `export default <name>`. -/
def dropClosingExport : (lineStart : Bool) → Text → Text
  | _, [] => []
  | lineStart, c :: rest =>
    if lineStart && isClosingExport (c :: rest) then [] else c :: dropClosingExport (c = '\n') rest

/-- The object that an entry file defines: its text without import statements and without a closing
`export default <name>`, trimmed. -/
def objectBody (text : Text) : Text := Text.trim (dropClosingExport true (strip text))

end Graft.Import
