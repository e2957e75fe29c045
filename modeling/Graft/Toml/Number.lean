import Graft.Text.Hex
import Graft.Tree

/-!
# Numbers and moments of a settings file

Whole numbers are decimal, or hexadecimal, octal or binary after `0x`, `0o` or `0b`; they must fit in 64
bits with a sign. Digits may be set apart by single underscores. Other numbers and moments in time are
recognised, but no setting has such a value, so only their kind is kept.
-/

namespace Graft.Toml

namespace Number

/-- The digits of a class at the start of a text, with single underscores between them, and what follows
them. -/
def digits (p : Char → Bool) : Text → Text × Text
  | '_' :: c :: rest =>
    if p c then
      let (ds, tail) := digits p rest
      (c :: ds, tail)
    else ([], '_' :: c :: rest)
  | c :: rest =>
    if p c then
      let (ds, tail) := digits p rest
      (c :: ds, tail)
    else ([], c :: rest)
  | [] => ([], [])

/-- The digits of a class at the start of a text, which starts with one of them. -/
def digits? (p : Char → Bool) (text : Text) : Option (Text × Text) :=
  if text.head?.any p then some (digits p text) else none

/-- The digits of a decimal number without needless zeros at the start of a text. -/
def whole? : Text → Option (Text × Text)
  | '0' :: rest => some (['0'], rest)
  | text => digits? Alphabet.isDigit text

/-- A sign at the start of a text, which may be missing: whether it is a minus, and what follows it. -/
def sign : Text → Bool × Text
  | '-' :: rest => (true, rest)
  | '+' :: rest => (false, rest)
  | text => (false, text)

/-- The value of digits to a base. -/
def value (base : Nat) (digits : Text) : Nat :=
  digits.foldl (fun n d => n * base + (Hex.digit? d).getD 0) 0

/-- A whole number, if it fits in 64 bits with a sign. -/
def integer? (n : Int) : Option Tree :=
  if Tree.isWord n then some (.integer n) else none

/-- Whether a character is a digit to a base. -/
def isDigitOf (base : Nat) (c : Char) : Bool := (Hex.digit? c).any (· < base)

/-- A whole number to a base other than ten, after its mark. -/
def ofBase? (base : Nat) (text : Text) : Option (Tree × Text) := do
  let (ds, rest) ← digits? (isDigitOf base) text
  return (← integer? (value base ds), rest)

/-- What follows the decimals at the start of a text, if there are some. -/
def fraction? : Text → Option Text
  | '.' :: rest => (digits? Alphabet.isDigit rest).map Prod.snd
  | _ => none

/-- What follows the exponent at the start of a text, if there is one. -/
def exponent? : Text → Option Text
  | c :: rest =>
    if c = 'e' || c = 'E' then (digits? Alphabet.isDigit (sign rest).2).map Prod.snd else none
  | [] => none

/-- A decimal number at the start of a text. -/
def decimal? (text : Text) : Option (Tree × Text) := do
  let (isNegative, text) := sign text
  match Text.follow? "inf" text <|> Text.follow? "nan" text with
  | some rest => return (.decimal, rest)
  | none =>
    let (ds, rest) ← whole? text
    -- A number with a point or an exponent is no integer, and its value is not kept.
    match fraction? rest, exponent? rest with
    | some rest, _ => return (.decimal, (exponent? rest).getD rest)
    | none, some rest => return (.decimal, rest)
    | none, none =>
      let n : Int := value 10 ds
      return (← integer? (if isNegative then -n else n), rest)

/-- A number at the start of a text, and what follows it. -/
def read? : Text → Option (Tree × Text)
  | '0' :: 'x' :: rest => ofBase? 16 rest
  | '0' :: 'o' :: rest => ofBase? 8 rest
  | '0' :: 'b' :: rest => ofBase? 2 rest
  | text => decimal? text

end Number

namespace Moment

/-- A number of `length` digits between two bounds at the start of a text. -/
def field? (length low high : Nat) (text : Text) : Option (Nat × Text) :=
  let ds := text.take length
  if ds.length = length && ds.all Alphabet.isDigit then
    let n := Number.value 10 ds
    if low ≤ n && n ≤ high then some (n, text.drop length) else none
  else none

/-- The number of days of a month. -/
def daysOf (year month : Nat) : Nat :=
  if month = 2 then
    if year % 4 = 0 && (year % 100 ≠ 0 || year % 400 = 0) then 29 else 28
  else if [4, 6, 9, 11].contains month then 30
  else 31

/-- What follows a date at the start of a text. -/
def date? (text : Text) : Option Text := do
  let (year, text) ← field? 4 0 9999 text
  let (month, text) ← field? 2 1 12 (← Text.follow? "-" text)
  let (_, text) ← field? 2 1 (daysOf year month) (← Text.follow? "-" text)
  return text

/-- What follows an hour and a minute. -/
def minutes? (text : Text) : Option Text := do
  let (_, text) ← field? 2 0 23 text
  let (_, text) ← field? 2 0 59 (← Text.follow? ":" text)
  return text

/-- What follows a time of day at the start of a text. -/
def time? (text : Text) : Option Text := do
  let (_, text) ← field? 2 0 60 (← Text.follow? ":" (← minutes? text))
  match text with
  | '.' :: c :: rest =>
    if Alphabet.isDigit c then return rest.dropWhile Alphabet.isDigit else return text
  | _ => return text

/-- What follows the distance from universal time, which may be missing. -/
def skipOffset : Text → Text
  | [] => []
  | c :: rest =>
    if c = 'Z' || c = 'z' then rest
    else if c = '+' || c = '-' then (minutes? rest).getD (c :: rest)
    else c :: rest

/-- What follows the time after a date, which may be missing. -/
def skipTime : Text → Text
  | [] => []
  | c :: rest =>
    if c = 'T' || c = 't' || c = ' ' then
      match time? rest with
      | some tail => skipOffset tail
      | none => c :: rest
    else c :: rest

/-- The table that a moment is kept as: no setting has its key. -/
def tree : Tree := .table [("moment", .empty)]

/-- A moment at the start of a text, and what follows it. -/
def read? (text : Text) : Option (Tree × Text) :=
  match date? text with
  | some rest => some (tree, skipTime rest)
  | none => (time? text).map (tree, ·)

end Moment

end Graft.Toml
