import Graft.Text.Hex
import Graft.Tree

/-!
# Settings in the environment

A variable sets the key that its name spells after a common start: two underscores separate a section
from a key, and case does not count. Its value is a truth value, a number, a quoted string, a list
`[a, b]` or a table `{key=a}`; whatever cannot be read in full as one of these is a text as it stands.
-/

namespace Graft.Variables

/-- White space of ASCII. -/
def isSpace (c : Char) : Bool :=
  c = ' ' || c = '\t' || c = '\n' || c = '\r' || c.toNat = 12

/-- A text without ASCII white space at its start. -/
def skipSpace (t : Text) : Text := t.dropWhile isSpace

/-- A character of a value without marks around it. -/
def isWordChar (c : Char) : Bool := !(['{', '}', '[', ']', ','].contains c)

/-- A character of a table's key without marks around it. -/
def isKeyChar (c : Char) : Bool := Alphabet.isAsciiAlphanumeric c || c = '_' || c = '-'

/-- The character that an escape stands for and the number of characters after its backslash. -/
def escape? : Text → Option (Char × Nat)
  | [] => none
  | c :: rest =>
    if c = '"' || c = '\\' then some (c, 1)
    else if c = 'b' then some (Char.ofNat 8, 1)
    else if c = 'f' then some (Char.ofNat 12, 1)
    else if c = 'n' then some ('\n', 1)
    else if c = 'r' then some ('\r', 1)
    else if c = 't' then some ('\t', 1)
    else
      let length := if c = 'u' then 4 else if c = 'U' then 8 else 0
      if 0 < length && (rest.take length).length = length then
        (Hex.value? (rest.take length) >>= Hex.char?).map (·, length + 1)
      else none

/-- A quoted string after its opening mark, where `covered` characters still belong to the last escape:
its value and what follows its closing mark. -/
def quotedFrom? : (covered : Nat) → Text → Option (Text × Text)
  | _, [] => none
  | covered + 1, _ :: rest => quotedFrom? covered rest
  | 0, c :: rest =>
    if c = '"' then some ([], rest)
    else if c = '\\' then
      match escape? rest with
      | some (d, length) => (quotedFrom? length rest).map fun (value, tail) => (d :: value, tail)
      | none => none
    else if c.toNat < 0x20 && c ≠ '\t' then none
    else (quotedFrom? 0 rest).map fun (value, tail) => (c :: value, tail)

/-- What follows a sign at the start of a text, which may be missing. -/
def afterSign : Text → Text
  | '+' :: rest => rest
  | '-' :: rest => rest
  | t => t

/-- Whether a text is a number with a point in it: digits on at least one side of the point, and an
exponent after it or none. -/
def isDecimal (t : Text) : Bool :=
  let whole := (afterSign t).takeWhile Alphabet.isDigit
  match (afterSign t).drop whole.length with
  | '.' :: rest =>
    let fraction := rest.takeWhile Alphabet.isDigit
    (!whole.isEmpty || !fraction.isEmpty) &&
      match rest.drop fraction.length with
      | [] => true
      | c :: rest =>
        (c = 'e' || c = 'E') && !(afterSign rest).isEmpty && (afterSign rest).all Alphabet.isDigit
  | _ => false

/-- The value of digits, if there are some and nothing else. -/
def digits? (t : Text) : Option Nat :=
  if t.isEmpty || !t.all Alphabet.isDigit then none
  else some (t.foldl (fun n d => n * 10 + (d.toNat - 48)) 0)

/-- A whole number that fits in 64 bits, with or without a sign. -/
def integer? : Text → Option Int
  | '-' :: rest => do
    let n ← digits? rest
    if n ≤ 9223372036854775808 then return -n else none
  | t => do
    let n ← digits? (match t with
      | '+' :: rest => rest
      | t => t)
    if n < UInt64.size then return n else none

/-- The value of a text without marks around it. -/
def word (t : Text) : Tree :=
  if isDecimal t then .decimal
  else
    match integer? t with
    | some n => .integer n
    | none => .text (String.ofList t)

/-- A table's key, and what follows it. -/
def key? (t : Text) : Option (String × Text) :=
  match t with
  | '"' :: rest => (quotedFrom? 0 rest).map fun (key, tail) => (String.ofList key, tail)
  | t =>
    match t.takeWhile isKeyChar with
    | [] => none
    | key => some (String.ofList key, t.dropWhile isKeyChar)

mutual

/-- A value at the start of a text, and what follows it. The fuel bounds the steps of the reading: two
for each item of a list or a table, and each of them but the first has a comma of its own. -/
def valueWithin? : (fuel : Nat) → Text → Option (Tree × Text)
  | 0, _ => none
  | fuel + 1, t => do
    let (value, rest) ← markedWithin? fuel (skipSpace t)
    return (value, skipSpace rest)

/-- A value that starts right here. -/
def markedWithin? : (fuel : Nat) → Text → Option (Tree × Text)
  | 0, _ => none
  | fuel + 1, t =>
    match Text.follow? "true" t, Text.follow? "false" t, t with
    | some rest, _, _ => some (.flag true, rest)
    | none, some rest, _ => some (.flag false, rest)
    | none, none, '{' :: rest => (pairs? fuel rest).map fun (entries, tail) => (.table entries, tail)
    | none, none, '[' :: rest => (items? fuel rest).map fun (items, tail) => (.list items, tail)
    | none, none, '"' :: rest =>
      (quotedFrom? 0 rest).map fun (value, tail) => (.text (String.ofList value), tail)
    -- A single character in single quotes is a text as well.
    | none, none, '\'' :: c :: '\'' :: rest => some (.text (String.ofList [c]), rest)
    | none, none, '\'' :: _ => none
    | none, none, t => some (word (Text.trim (t.takeWhile isWordChar)), t.dropWhile isWordChar)

/-- The items of a list up to its closing bracket. -/
def items? : (fuel : Nat) → Text → Option (List Tree × Text)
  | 0, _ => none
  | _ + 1, ']' :: tail => some ([], tail)
  | fuel + 1, t => do
    let (item, rest) ← valueWithin? fuel t
    match rest with
    | ',' :: rest =>
      let (items, tail) ← items? fuel rest
      return (item :: items, tail)
    | ']' :: tail => return ([item], tail)
    | _ => none

/-- The entries of a table up to its closing brace; a later one of the same key takes the place of the
earlier one. -/
def pairs? : (fuel : Nat) → Text → Option (Tree.Entries × Text)
  | 0, _ => none
  | _ + 1, '}' :: tail => some ([], tail)
  | fuel + 1, t => do
    let (key, rest) ← key? (skipSpace t)
    let rest ← Text.follow? "=" (skipSpace rest)
    let (value, rest) ← valueWithin? fuel rest
    match rest with
    | ',' :: rest =>
      let (entries, tail) ← pairs? fuel rest
      return (if (entries.lookup key).isSome then entries else (key, value) :: entries, tail)
    | '}' :: tail => return ([(key, value)], tail)
    | _ => none

end

/-- The value of a variable. -/
def value (s : String) : Tree :=
  match valueWithin? (3 * s.length + 3) s.toList with
  | some (t, []) => t
  | _ => .text s

/-- Whether two characters are the same when the case of ASCII letters does not count. -/
def isSameLetter (expected c : Char) : Bool := Alphabet.lowerLetter expected = Alphabet.lowerLetter c

/-- A name with a point for each two underscores. -/
def pointed : (name : Text) → Text
  | '_' :: '_' :: rest => '.' :: pointed rest
  | c :: rest => c :: pointed rest
  | [] => []

/-- The path of keys that a variable sets, if its name starts with `start` and has no empty part. -/
def path? (start name : String) : Option (List String) := do
  let rest ← Text.afterAlike? isSameLetter start.toList (Text.trim name.toList)
  let parts := Text.splitOn '.' ((Text.trim (pointed rest)).map Alphabet.lowerLetter)
  if parts.any List.isEmpty then none else return parts.map String.ofList

/-- What the variables whose names start with `start` set. -/
def tree (start : String) (environment : List (String × String)) : Tree :=
  Tree.stack (environment.filterMap fun (name, s) => (path? start name).map fun path =>
    Tree.nest path (value s))

end Graft.Variables
