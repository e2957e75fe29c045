import Graft.Text.Hex

/-!
# Answers of a file viewer

A file viewer answers with a JSON object that holds the file line by line, at `rawLines` in `blob` in
`payload`; any other answer is the file itself. The three objects on the way may have other members,
which only need to be well formed, and may each be written as the array of their known members.
-/

namespace Graft.Viewer

/-- JSON as far as the reading needs it. A string that names half a surrogate pair has no text. -/
inductive Json where
  /-- A number, a truth value or null. -/
  | scalar
  | string (text : Option Text)
  | array (items : List Json)
  | object (members : List (Option Text × Json))
  deriving Repr, Inhabited

namespace Json

/-- White space between the tokens. -/
def isSpace (c : Char) : Bool := c = ' ' || c = '\n' || c = '\t' || c = '\r'

/-- A text without white space at its start. -/
def skip (t : Text) : Text := t.dropWhile isSpace

/-- The value of four hexadecimal digits at the start of a text. -/
def hex4? : Text → Option (Nat × Text)
  | a :: b :: c :: d :: rest => (Hex.value? [a, b, c, d]).map fun n => (n, rest)
  | _ => none

/-- The character that a one-letter escape stands for. -/
def simpleEscape? (c : Char) : Option Char :=
  if c = '"' || c = '\\' || c = '/' then some c
  else if c = 'b' then some (Char.ofNat 8)
  else if c = 'f' then some (Char.ofNat 12)
  else if c = 'n' then some '\n'
  else if c = 'r' then some '\r'
  else if c = 't' then some '\t'
  else none

/-- A unit of a string: a character, or a code unit given by its number. -/
inductive Token where
  | char (c : Char)
  | code (n : Nat)
  deriving DecidableEq, Repr

/-- The units of a string after its opening quotation mark, and what follows the closing one. The
text is measured by `fuel`. -/
def tokens? : (fuel : Nat) → Text → Option (List Token × Text)
  | 0, _ => none
  | _ + 1, [] => none
  | fuel + 1, c :: rest =>
    if c = '"' then some ([], rest)
    else if c.toNat < 0x20 then none
    else if c ≠ '\\' then (tokens? fuel rest).map fun (ts, tail) => (.char c :: ts, tail)
    else
      match rest with
      | [] => none
      | e :: rest =>
        if e = 'u' then do
          let (n, rest) ← hex4? rest
          let (ts, tail) ← tokens? fuel rest
          return (.code n :: ts, tail)
        else do
          let d ← simpleEscape? e
          let (ts, tail) ← tokens? fuel rest
          return (.char d :: ts, tail)

/-- The text of a string's units: two halves of a surrogate pair make one character, and a half by
itself makes none. -/
def text? : List Token → Option Text
  | [] => some []
  | .char c :: rest => (text? rest).map (c :: ·)
  | .code n :: rest =>
    if 0xDC00 ≤ n && n ≤ 0xDFFF then none
    else if 0xD800 ≤ n && n ≤ 0xDBFF then
      match rest with
      | .code low :: rest =>
        if 0xDC00 ≤ low && low ≤ 0xDFFF then
          (text? rest).map (Char.ofNat (0x10000 + (n - 0xD800) * 0x400 + (low - 0xDC00)) :: ·)
        else none
      | _ => none
    else (text? rest).map (Char.ofNat n :: ·)

/-- A string after its opening quotation mark. -/
def string? (t : Text) : Option (Option Text × Text) :=
  (tokens? (t.length + 1) t).map fun (ts, rest) => (text? ts, rest)

/-- What follows the digits at the start of a text that has some there. -/
def digits? (t : Text) : Option Text :=
  if t.head?.any Alphabet.isDigit then some (t.dropWhile Alphabet.isDigit) else none

/-- What follows the whole part of a number: a zero by itself, or digits that start with another. -/
def wholePart? : Text → Option Text
  | '0' :: rest => if rest.head?.any Alphabet.isDigit then none else some rest
  | t => digits? t

/-- What follows the decimals of a number, which may be missing. -/
def decimals? : Text → Option Text
  | '.' :: rest => digits? rest
  | t => some t

/-- What follows the sign of an exponent, which may be missing. -/
def skipSign : Text → Text
  | '+' :: rest => rest
  | '-' :: rest => rest
  | t => t

/-- What follows the exponent of a number, which may be missing. -/
def exponent? : Text → Option Text
  | [] => some []
  | c :: rest => if c = 'e' || c = 'E' then digits? (skipSign rest) else some (c :: rest)

/-- What follows a number at the start of a text. -/
def number? (t : Text) : Option Text := do
  let t := match t with
    | '-' :: rest => rest
    | t => t
  exponent? (← decimals? (← wholePart? t))

/-- What follows a number, a truth value or null. -/
def scalar? (t : Text) : Option Text :=
  Text.follow? "null" t <|> Text.follow? "true" t <|> Text.follow? "false" t <|> number? t

mutual

/-- The value at the start of a text, and what follows it; `fuel` bounds the nesting and the number
of values. -/
def value? : (fuel : Nat) → Text → Option (Json × Text)
  | 0, _ => none
  | fuel + 1, t =>
    match skip t with
    | '"' :: rest => (string? rest).map fun (s, tail) => (.string s, tail)
    | '[' :: rest =>
      match skip rest with
      | ']' :: tail => some (.array [], tail)
      | _ => (items? fuel rest).map fun (items, tail) => (.array items, tail)
    | '{' :: rest =>
      match skip rest with
      | '}' :: tail => some (.object [], tail)
      | _ => (members? fuel rest).map fun (members, tail) => (.object members, tail)
    | t => (scalar? t).map fun tail => (.scalar, tail)

/-- The items of an array up to its closing bracket. -/
def items? : (fuel : Nat) → Text → Option (List Json × Text)
  | 0, _ => none
  | fuel + 1, t => do
    let (item, rest) ← value? fuel t
    match skip rest with
    | ',' :: rest =>
      let (items, tail) ← items? fuel rest
      return (item :: items, tail)
    | ']' :: tail => return ([item], tail)
    | _ => none

/-- The members of an object up to its closing brace. -/
def members? : (fuel : Nat) → Text → Option (List (Option Text × Json) × Text)
  | 0, _ => none
  | fuel + 1, t => do
    let rest ← Text.follow? "\"" (skip t)
    let (key, rest) ← string? rest
    let rest ← Text.follow? ":" (skip rest)
    let (value, rest) ← value? fuel rest
    match skip rest with
    | ',' :: rest =>
      let (members, tail) ← members? fuel rest
      return ((key, value) :: members, tail)
    | '}' :: tail => return ([(key, value)], tail)
    | _ => none

end

/-- The value that a whole text writes. -/
def read? (t : Text) : Option Json := do
  let (value, rest) ← value? (2 * t.length + 2) t
  if (skip rest).isEmpty then return value else none

/-- The member `key` of an object, which must be there once, with every key a text; or the only item
of an array. -/
def field? (key : Text) : Json → Option Json
  | .object members =>
    if members.all fun m => m.1.isSome then
      match members.filter fun m => m.1 = some key with
      | [(_, value)] => some value
      | _ => none
    else none
  | .array [value] => some value
  | _ => none

/-- The texts of an array of strings. -/
def strings? : Json → Option (List Text)
  | .array items => items.mapM fun
    | .string (some s) => some s
    | _ => none
  | _ => none

end Json

/-- The lines in a viewer's answer. -/
def lines? (body : Text) : Option (List Text) := do
  let answer ← Json.read? body
  let payload ← answer.field? "payload".toList
  let blob ← payload.field? "blob".toList
  let lines ← blob.field? "rawLines".toList
  lines.strings?

/-- The file in an answer: the lines that a viewer gives, one after the other, or the answer as it
is. -/
def decode (body : Text) : Text :=
  if Text.startsWith "\x7b" (Text.trimStart body) then
    match lines? body with
    | some lines => Text.joinWith ['\n'] lines
    | none => body
  else body

end Graft.Viewer
