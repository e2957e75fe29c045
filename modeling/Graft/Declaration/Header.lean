import Graft.Declaration

/-!
# Declaration headers

A header is how a declaration starts at the beginning of a line:

    [export] [async] function [*] NAME (
    [export] const|let NAME = [async] (PARAMETERS) =>
    [export] const|let NAME = [async] PARAMETER =>

Each part is the longest run of its class, so a line has at most one reading as a header.
-/

namespace Graft.Declaration

/-- What kind of declaration a header starts. -/
inductive Kind where
  /-- A function; the header ends after the opening parenthesis. -/
  | function (isGenerator : Bool)
  /-- An arrow function with these parameters; the header ends after the arrow. -/
  | arrow (parameters : Text)
  deriving DecidableEq, Repr

/-- A declaration's header, as it stands at the start of a text. -/
structure Header where
  /-- The text from the declaring keyword on. -/
  declared : Text
  name : Text
  isAsync : Bool
  kind : Kind
  /-- What follows the header. -/
  rest : Text
  deriving DecidableEq, Repr

namespace Header

/-- Whether a word ends where this text follows it. -/
def atWordEnd : Text → Bool
  | [] => true
  | c :: _ => !Alphabet.isWord c

/-- What follows a whole word and the white space after it, which may be missing. -/
def keyword? (word : String) (text : Text) : Option Text := do
  let text ← Text.follow? word text
  if atWordEnd text then return Text.trimStart text else none

/-- What follows a word and the white space after it, which must be there. -/
def spacedKeyword? (word : String) (text : Text) : Option Text := do
  Text.spaces? (← Text.follow? word text)

/-- A character of a function's name. -/
def isFunctionNameChar (c : Char) : Bool := !Alphabet.isSpace c && c ≠ '(' && c ≠ '*'

/-- A character of a variable's name. -/
def isVariableNameChar (c : Char) : Bool := !Alphabet.isSpace c && c ≠ '='

/-- The longest run of a class at the start of a text, if it is not empty, and what follows it. -/
def run? (p : Char → Bool) (text : Text) : Option (Text × Text) :=
  if (text.takeWhile p).isEmpty then none else some (text.takeWhile p, text.dropWhile p)

/-- What follows a generator's star and the white space after it, and whether there is a star. -/
def star : Text → Bool × Text
  | '*' :: rest => (true, Text.trimStart rest)
  | text => (false, text)

/-- A function's header, after any `async`. -/
def function? (declared : Text) (isAsync : Bool) (text : Text) : Option Header := do
  let (isGenerator, text) := star (← keyword? "function" text)
  let (name, text) ← run? isFunctionNameChar text
  let rest ← Text.follow? "(" (Text.trimStart text)
  return ⟨declared, name, isAsync, .function isGenerator, rest⟩

/-- The parameters of an arrow function, in parentheses or as one bare identifier. -/
def parameters? : Text → Option (Text × Text)
  -- Parentheses are not matched here: the first closing one ends the list.
  | '(' :: rest =>
    match rest.dropWhile (· ≠ ')') with
    | _ :: tail => some (rest.takeWhile (· ≠ ')'), tail)
    | [] => none
  | c :: rest =>
    if Alphabet.isAsciiLetter c || c = '_' || c = '$' then
      some (c :: rest.takeWhile fun d => Alphabet.isWord d || d = '$',
        rest.dropWhile fun d => Alphabet.isWord d || d = '$')
    else none
  | [] => none

/-- The parameters of an arrow function and what follows its arrow. -/
def arrowParameters? (text : Text) : Option (Text × Text) := do
  let (parameters, text) ← parameters? text
  return (parameters, ← Text.follow? "=>" (Text.trimStart text))

/-- The part of an arrow function's header after the equals sign: whether it is marked `async`, its
parameters, and what follows the arrow. A marker is read as one wherever that leads to an arrow; else
`async` is a parameter. -/
def arrowTail? (text : Text) : Option (Bool × Text × Text) :=
  match keyword? "async" text >>= arrowParameters? with
  | some (parameters, rest) => some (true, parameters, rest)
  | none => (arrowParameters? text).map fun (parameters, rest) => (false, parameters, rest)

/-- An arrow function's header. -/
def arrow? (declared : Text) : Option Header := do
  let text ← (spacedKeyword? "const" declared <|> spacedKeyword? "let" declared)
  let (name, text) ← run? isVariableNameChar text
  let text ← Text.follow? "=" (Text.trimStart text)
  let (isAsync, parameters, rest) ← arrowTail? (Text.trimStart text)
  return ⟨declared, name, isAsync, .arrow parameters, rest⟩

/-- The header at the start of a line. -/
def read? (line : Text) : Option Header :=
  let declared := (spacedKeyword? "export" line).getD line
  match spacedKeyword? "async" declared with
  | some text => function? declared true text
  | none => function? declared false declared <|> arrow? declared

end Header

end Graft.Declaration
