import Graft.Declaration.Extract
import Graft.Text.Bytes

/-!
# Extraction by byte positions

The same extraction with places in the file as byte positions: every stretch is sliced out of the whole
file, a slice outside of it or inside a character fails, and so does a count of open parentheses below
zero.
-/

namespace Graft.Declaration.Bytewise

open Text (byteLength cutAt? slice? position? lastPosition? trimEnd trimEndBy linesWithEnds)

/-- The position of the parenthesis that closes the first of `depth` open ones, if there is one; the
count of open ones must not go below zero. -/
def closeParenFrom? : (depth position : Nat) → Text → Option (Option Nat)
  | _, _, [] => some none
  | depth, position, c :: rest =>
    if c = '(' then closeParenFrom? (depth + 1) (position + c.utf8Size) rest
    else if c = ')' then
      match depth with
      | 0 => none
      | depth + 1 =>
        if depth = 0 then some (some position) else closeParenFrom? depth (position + c.utf8Size) rest
    else closeParenFrom? depth (position + c.utf8Size) rest

/-- The position of the parenthesis that closes the one at `opened`. -/
def closeParen? (file : Text) (opened : Nat) : Option (Option Nat) := do
  let (_, rest) ← cutAt? opened file
  closeParenFrom? 0 opened rest

/-- The position in a line of the brace that closes a block on that line. -/
def oneLineEnd? (line : Text) : Option (Option Nat) :=
  match lastPosition? '}' line with
  | none => some none
  | some last => do
    let block ← slice? 0 (last + 1) line
    let tail ← slice? (last + 1) (byteLength line) line
    return if Text.countChar '{' block = Text.countChar '}' block && isQuietTail tail then some last
      else none

/-- The position of the next closing line. -/
def closingLineFrom? : (lineStart : Bool) → (position : Nat) → Text → Option Nat
  | _, _, [] => none
  | lineStart, position, c :: rest =>
    if lineStart && isClosingLine (c :: rest) then some position
    else closingLineFrom? (c = '\n') (position + c.utf8Size) rest

/-- The position of the brace that closes the block opened at `opened`. -/
def blockEnd? (file : Text) (opened : Nat) : Option (Option Nat) := do
  let (_, text) ← cutAt? opened file
  let lineEnd := opened + (position? '\n' text).getD (byteLength text)
  let line ← slice? opened lineEnd file
  match ← oneLineEnd? line with
  | some last => return some (opened + last)
  | none =>
    let (_, later) ← cutAt? lineEnd file
    return closingLineFrom? true lineEnd later

/-- The position behind the last line before `position`, without its line break. -/
def backUp? (file : Text) (position : Nat) : Option Nat := do
  let (front, _) ← cutAt? position file
  return byteLength (trimEndBy Alphabet.isLineBreak front)

/-- The position behind an expression that goes on with these lines. -/
def expressionEndFrom? (file : Text) : (position : Nat) → (isFirst : Bool) → List Text → Option Nat
  | position, _, [] => backUp? file position
  | position, isFirst, line :: lines =>
    let content := trimEnd line
    -- The first line belongs to the expression, whatever it looks like.
    if !isFirst && (content.isEmpty || startsStatement line) then backUp? file position
    else
      let lineEnd := position + byteLength (trimEndBy Alphabet.isLineBreak line)
      let position := position + byteLength line
      if Text.endsWith ';' content then some lineEnd
      else if byteLength file ≤ position then some lineEnd
      else expressionEndFrom? file position false lines

/-- The position behind the expression that starts at `start`. -/
def expressionEnd? (file : Text) (start : Nat) : Option Nat := do
  let (_, text) ← cutAt? start file
  expressionEndFrom? file start true (linesWithEnds text)

/-- A header with the positions of its line, of its declaring keyword and of what follows it. -/
structure Match where
  start : Nat
  keyword : Nat
  stop : Nat
  header : Header

/-- The declaration with a block whose brace is at `opened`, and the position behind it. -/
def block? (file : Text) (m : Match) (isGenerator : Bool) (parameters : Text) (opened : Nat) :
    Option (Option (Declaration × Nat)) := do
  match ← blockEnd? file opened with
  | none => return none
  | some last =>
    let text ← slice? m.keyword (last + 1) file
    let body ← slice? (opened + 1) (last + 1) file
    return some (⟨String.ofList m.header.name, text, m.header.isAsync, isGenerator, parameters,
      .block body⟩, last + 1)

/-- The declaration with the expression that starts at `start`, and the position behind it. -/
def expression? (file : Text) (m : Match) (parameters : Text) (start : Nat) :
    Option (Option (Declaration × Nat)) := do
  let stop ← expressionEnd? file start
  let kept ← slice? start stop file
  let expression := trimEnd (trimEndBy (· = ';') (trimEnd kept))
  let text ← slice? m.keyword stop file
  return if expression.isEmpty then none
    else some (⟨String.ofList m.header.name, trimEnd text, m.header.isAsync, false, parameters,
      .expression expression⟩, stop)

/-- The declaration that a header starts and the position behind it, if its end can be found. -/
def bound? (file : Text) (m : Match) : Option (Option (Declaration × Nat)) :=
  match m.header.kind with
  | .function isGenerator => do
    -- The header ends with the opening parenthesis, which is one byte long.
    let opened ← if 1 ≤ m.stop then some (m.stop - 1) else none
    match ← closeParen? file opened with
    | none => return none
    | some closed =>
      let parameters ← slice? (opened + 1) closed file
      let (_, behind) ← cutAt? closed file
      match position? '{' behind with
      | none => return none
      | some toBrace => block? file m isGenerator parameters (closed + toBrace)
  | .arrow parameters => do
    let (_, behind) ← cutAt? m.stop file
    let bodyStart := m.stop + byteLength behind - byteLength (Text.trimStart behind)
    if byteLength file ≤ bodyStart then return none
    else
      let (_, body) ← cutAt? bodyStart file
      if Text.startsWith "\x7b" body then block? file m false parameters bodyStart
      else expression? file m parameters bodyStart

/-- The headers of a text that starts at `position`, of which the last header covers `header` more
characters. -/
def matchesFrom : (header position : Nat) → (lineStart : Bool) → Text → List Match
  | _, _, _, [] => []
  | header + 1, position, _, c :: rest => matchesFrom header (position + c.utf8Size) (c = '\n') rest
  | 0, position, lineStart, c :: rest =>
    match if lineStart then Header.read? (c :: rest) else none with
    | none => matchesFrom 0 (position + c.utf8Size) (c = '\n') rest
    | some h =>
      let total := position + byteLength (c :: rest)
      ⟨position, total - byteLength h.declared, total - byteLength h.rest, h⟩ ::
        matchesFrom (rest.length - h.rest.length) (position + c.utf8Size) (c = '\n') rest

/-- The declarations that headers start, but for headers that lie before `covered`. -/
def declarations? (file : Text) : (covered : Nat) → List Match → Option (List Declaration)
  | _, [] => some []
  | covered, m :: later =>
    if m.start < covered then declarations? file covered later
    else do
      match ← bound? file m with
      | some (d, stop) => return d :: (← declarations? file stop later)
      | none => declarations? file covered later

/-- The declarations of a file by name. -/
def extract? (file : Text) : Option (List Declaration) := do
  return byName (← declarations? file 0 (matchesFrom 0 0 true file))

end Graft.Declaration.Bytewise
