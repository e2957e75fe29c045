import Graft.Text.Hex

/-!
# Strings of a settings file

There are four kinds of strings. Basic ones stand between `"` and know escapes; literal ones stand
between `'` and know none. Each kind can be on one line or, between three marks, on several; then a
line end right after the opening marks does not count, and up to two marks may stand before the closing
ones.
-/

namespace Graft.Toml

/-- A character that strings and comments may hold as it is: a tab, or anything but a control
character. -/
def isPlain (c : Char) : Bool := c = '\t' || (0x20 ≤ c.toNat && c.toNat ≠ 0x7F)

/-- What follows one line end at the start of a text. -/
def lineEnd? : Text → Option Text
  | '\n' :: rest => some rest
  | '\r' :: '\n' :: rest => some rest
  | _ => none

namespace Quoted

/-- The character that a one-letter escape stands for. -/
def simpleEscape? (c : Char) : Option Char :=
  if c = '"' || c = '\\' then some c
  else if c = 'b' then some (Char.ofNat 8)
  else if c = 't' then some '\t'
  else if c = 'n' then some '\n'
  else if c = 'f' then some (Char.ofNat 12)
  else if c = 'r' then some '\r'
  else none

/-- The character that the first `length` characters of a text name by its code point. -/
def byCode? (length : Nat) (text : Text) : Option Char :=
  if (text.take length).length = length then Hex.value? (text.take length) >>= Hex.char? else none

/-- The character that an escape stands for and the number of characters after its backslash. -/
def escape? : Text → Option (Char × Nat)
  | [] => none
  | c :: rest =>
    if c = 'u' then (byCode? 4 rest).map (·, 5)
    else if c = 'U' then (byCode? 8 rest).map (·, 9)
    else (simpleEscape? c).map (·, 1)

/-- A basic string on one line after its opening mark, where `covered` characters still belong to the
last escape: its value and what follows its closing mark. -/
def basicFrom? : (covered : Nat) → Text → Option (Text × Text)
  | _, [] => none
  | covered + 1, _ :: rest => basicFrom? covered rest
  | 0, c :: rest =>
    if c = '"' then some ([], rest)
    else if c = '\\' then
      match escape? rest with
      | some (d, length) => (basicFrom? length rest).map fun (value, tail) => (d :: value, tail)
      | none => none
    else if isPlain c then (basicFrom? 0 rest).map fun (value, tail) => (c :: value, tail)
    else none

/-- A literal string on one line after its opening mark. -/
def literal? : Text → Option (Text × Text)
  | [] => none
  | c :: rest =>
    if c = '\'' then some ([], rest)
    else if isPlain c then (literal? rest).map fun (value, tail) => (c :: value, tail)
    else none

/-- The number of characters in the blanks and line ends at the start of a text. -/
def fillLength : Text → Nat
  | '\r' :: '\n' :: rest => fillLength rest + 2
  | c :: rest => if Alphabet.isBlank c || c = '\n' then fillLength rest + 1 else 0
  | [] => 0

/-- The number of characters that a backslash at the end of a line takes with it: blanks to the end of
the line, and all blanks and line ends after it. -/
def foldLength? (text : Text) : Option Nat :=
  if (lineEnd? (text.dropWhile Alphabet.isBlank)).isSome then some (fillLength text) else none

/-- A string on several lines after its opening marks, where `covered` characters still belong to what
was read last. Its line ends are read as line feeds. -/
def multiFrom? (mark : Char) (hasEscapes : Bool) : (covered : Nat) → Text → Option (Text × Text)
  | _, [] => none
  | covered + 1, _ :: rest => multiFrom? mark hasEscapes covered rest
  | 0, c :: rest =>
    let marks := ((c :: rest).takeWhile (· = mark)).length
    if 3 ≤ marks then
      -- Up to two marks in front of the closing ones belong to the string.
      let extra := min (marks - 3) 2
      some (List.replicate extra mark, (c :: rest).drop (3 + extra))
    else if hasEscapes && c = '\\' then
      match foldLength? rest, escape? rest with
      | some length, _ => multiFrom? mark hasEscapes length rest
      | none, some (d, length) =>
        (multiFrom? mark hasEscapes length rest).map fun (value, tail) => (d :: value, tail)
      | none, none => none
    else if c = '\n' || isPlain c then
      (multiFrom? mark hasEscapes 0 rest).map fun (value, tail) => (c :: value, tail)
    else if c = '\r' && rest.head? = some '\n' then multiFrom? mark hasEscapes 0 rest
    else none

/-- A string of any kind at the start of a text: its value and what follows it. -/
def read? (text : Text) : Option (Text × Text) :=
  match Text.follow? "\"\"\"" text, Text.follow? "'''" text, text with
  | some rest, _, _ => multiFrom? '"' true 0 ((lineEnd? rest).getD rest)
  | none, some rest, _ => multiFrom? '\'' false 0 ((lineEnd? rest).getD rest)
  | none, none, '"' :: rest => basicFrom? 0 rest
  | none, none, '\'' :: rest => literal? rest
  | none, none, _ => none

end Quoted

/-- A character of a key without quotation marks. -/
def isKeyChar (c : Char) : Bool := Alphabet.isAsciiAlphanumeric c || c = '_' || c = '-'

/-- One key, bare or as a string on one line, and what follows it. -/
def key? : Text → Option (String × Text)
  | '"' :: rest => (Quoted.basicFrom? 0 rest).map fun (key, tail) => (String.ofList key, tail)
  | '\'' :: rest => (Quoted.literal? rest).map fun (key, tail) => (String.ofList key, tail)
  | text =>
    match text.takeWhile isKeyChar with
    | [] => none
    | key => some (String.ofList key, text.dropWhile isKeyChar)

/-- A text without blanks at its start. -/
def skipBlanks (text : Text) : Text := text.dropWhile Alphabet.isBlank

/-- A path of keys with dots between them, blanks around each key, and what follows it. The number of
keys is at most `fuel`. -/
def pathWithin? : (fuel : Nat) → Text → Option (List String × Text)
  | 0, _ => none
  | fuel + 1, text => do
    let (key, rest) ← key? (skipBlanks text)
    match skipBlanks rest with
    | '.' :: rest =>
      let (path, tail) ← pathWithin? fuel rest
      return (key :: path, tail)
    | rest => return ([key], rest)

/-- A path of keys at the start of a text. -/
def path? (text : Text) : Option (List String × Text) := pathWithin? (text.length + 1) text

end Graft.Toml
