import Graft.Toml.Number
import Graft.Toml.Quoted
import Graft.Toml.Table

/-!
# Values of a settings file

A value is a string, a truth value, a number, a moment, an array or an inline table. Arrays may spread
over lines, have comments and end in a comma; an inline table stays on its line, apart from what its
values span.
-/

namespace Graft.Toml

/-- A text without blanks, line ends and comments at its start; `inComment` tells whether a comment is
open. -/
def skipFill : (inComment : Bool) → Text → Text
  | _, [] => []
  | inComment, c :: rest =>
    if c = '\n' || (c = '\r' && rest.head? = some '\n') then skipFill false rest
    else if inComment then
      if isPlain c then skipFill true rest else c :: rest
    else if Alphabet.isBlank c then skipFill false rest
    else if c = '#' then skipFill true rest
    else c :: rest

/-- A truth value at the start of a text. -/
def flag? (text : Text) : Option (Tree × Text) :=
  match Text.follow? "true" text with
  | some rest => some (.flag true, rest)
  | none => (Text.follow? "false" text).map (.flag false, ·)

/-- A value that is neither an array nor an inline table at the start of a text. -/
def scalar? (text : Text) : Option (Tree × Text) :=
  match Quoted.read? text with
  | some (s, rest) => some (.text (String.ofList s), rest)
  | none => flag? text <|> Moment.read? text <|> Number.read? text

mutual

/-- A value at the start of a text. The fuel bounds the steps of the reading: two for each item of an
array or an inline table, and each of them has a character of its own. -/
def valueWithin? : (fuel : Nat) → Text → Option (Tree × Text)
  | 0, _ => none
  | fuel + 1, '[' :: rest =>
    match skipFill false rest with
    | ']' :: tail => some (.list [], tail)
    | rest => (items? fuel rest).map fun (items, tail) => (.list items, tail)
  | fuel + 1, '{' :: rest =>
    match skipBlanks rest with
    | '}' :: tail => some (.table [], tail)
    | rest => (pairs? fuel [] rest).map fun (nodes, tail) => (.table (Node.trees nodes), tail)
  | _ + 1, text => scalar? text

/-- The items of an array up to its closing bracket; at least one is left. -/
def items? : (fuel : Nat) → Text → Option (List Tree × Text)
  | 0, _ => none
  | fuel + 1, text => do
    let (item, rest) ← valueWithin? fuel text
    match skipFill false rest with
    | ']' :: tail => return ([item], tail)
    | ',' :: rest =>
      match skipFill false rest with
      -- This was a comma behind the last item.
      | ']' :: tail => return ([item], tail)
      | rest =>
        let (items, tail) ← items? fuel rest
        return (item :: items, tail)
    | _ => none

/-- The entries of an inline table up to its closing brace, after those in `nodes`; at least one is
left. -/
def pairs? : (fuel : Nat) → Nodes → Text → Option (Nodes × Text)
  | 0, _, _ => none
  | fuel + 1, nodes, text => do
    let (path, rest) ← path? text
    let rest ← Text.follow? "=" rest
    let (value, rest) ← valueWithin? fuel (skipBlanks rest)
    let nodes ← Node.assignPath? path value nodes
    match skipBlanks rest with
    | '}' :: tail => return (nodes, tail)
    | ',' :: rest => pairs? fuel nodes rest
    | _ => none

end

/-- A value at the start of a text, and what follows it. -/
def value? (text : Text) : Option (Tree × Text) := valueWithin? (2 * text.length + 2) text

end Graft.Toml
