import Graft.Text.Alphabet

/-!
# Text

Source text is a list of characters. This module has what the rest of the library does with it:
measuring in bytes, trimming, taking a given word off the front, and splitting into pieces and
lines. Names and URLs are `String`; text that is cut and put together is `Text`.
-/

namespace Graft

/-- Source text, character by character. -/
abbrev Text := List Char

namespace Text

/-- The length of the UTF-8 encoding, in bytes. -/
def byteLength : Text → Nat
  | [] => 0
  | c :: rest => c.utf8Size + byteLength rest

/-- The text without the characters of class `p` at its end. -/
def trimEndBy (p : Char → Bool) : Text → Text
  | [] => []
  | c :: rest =>
    match trimEndBy p rest with
    | [] => if p c then [] else [c]
    | kept => c :: kept

/-- The text without white space at its start. -/
def trimStart (t : Text) : Text := t.dropWhile Alphabet.isSpace

/-- The text without white space at its end. -/
def trimEnd (t : Text) : Text := trimEndBy Alphabet.isSpace t

/-- The text without white space at either end. -/
def trim (t : Text) : Text := trimEnd (trimStart t)

/-- What follows `word` in a text that starts with it. -/
def after? : (word text : Text) → Option Text
  | [], text => some text
  | _ :: _, [] => none
  | w :: word, c :: text => if w = c then after? word text else none

/-- What follows `word` in a text that starts with it, where a character of the text may stand for another
one of the word. -/
def afterAlike? (isAlike : Char → Char → Bool) : (word text : Text) → Option Text
  | [], text => some text
  | _ :: _, [] => none
  | w :: word, c :: text => if isAlike w c then afterAlike? isAlike word text else none

/-- What follows the word `word` in a text that starts with it. -/
def follow? (word : String) (text : Text) : Option Text := after? word.toList text

/-- What follows the white space at the start of a text that has some there. -/
def spaces? (text : Text) : Option Text :=
  match text with
  | [] => none
  | c :: rest => if Alphabet.isSpace c then some (trimStart rest) else none

/-- Whether a text starts with `word`. -/
def startsWith (word : String) (text : Text) : Bool := (follow? word text).isSome

/-- Whether the last character of a text is `c`. -/
def endsWith (c : Char) (text : Text) : Bool := text.getLast? = some c

/-- The pieces of a text between the occurrences of a separator; there is always at least one. -/
def splitOn (separator : Char) : Text → List Text
  | [] => [[]]
  | c :: rest =>
    match splitOn separator rest with
    | [] => [[c]]
    | piece :: pieces => if c = separator then [] :: piece :: pieces else (c :: piece) :: pieces

/-- The words of a text: its maximal runs without white space. -/
def words : Text → List Text
  | [] => []
  | c :: rest =>
    if Alphabet.isSpace c then words rest
    else
      match rest, words rest with
      | d :: _, word :: others =>
        if Alphabet.isSpace d then [c] :: word :: others else (c :: word) :: others
      | _, others => [c] :: others

/-- The lines of a text, each with the line feed that ends it; only the last may lack one. -/
def linesWithEnds : Text → List Text
  | [] => []
  | c :: rest =>
    if c = '\n' then [c] :: linesWithEnds rest
    else
      match linesWithEnds rest with
      | [] => [[c]]
      | line :: lines => (c :: line) :: lines

/-- A line without the line feed that ends it and a carriage return before that. -/
def withoutLineEnd (line : Text) : Text :=
  match line.reverse with
  | '\n' :: '\r' :: front => front.reverse
  | '\n' :: front => front.reverse
  | _ => line

/-- The lines of a text, without their line ends. -/
def lines (t : Text) : List Text := (linesWithEnds t).map withoutLineEnd

/-- Pieces with a separator between neighbours. -/
def joinWith (separator : Text) : List Text → Text
  | [] => []
  | [piece] => piece
  | piece :: pieces => piece ++ separator ++ joinWith separator pieces

/-- What stands before the last occurrence of `c`, and the text from that occurrence on. -/
def splitAtLast (c : Char) : Text → Option (Text × Text)
  | [] => none
  | d :: rest =>
    match splitAtLast c rest with
    | some (before, fromLast) => some (d :: before, fromLast)
    | none => if d = c then some ([], d :: rest) else none

/-- How often a character occurs. -/
def countChar (c : Char) (t : Text) : Nat := t.count c

end Text

namespace Word

/-- The pieces of a string between the occurrences of a separator; there is always at least one. -/
def splitOn (separator : Char) (s : String) : List String :=
  (Text.splitOn separator s.toList).map String.ofList

/-- Strings with a separator between neighbours. -/
def joinWith (separator : String) : List String → String
  | [] => ""
  | [s] => s
  | s :: rest => s ++ separator ++ joinWith separator rest

/-- A string without white space at either end. -/
def trim (s : String) : String := String.ofList (Text.trim s.toList)

/-- Whether a string starts with another. -/
def startsWith (start s : String) : Bool := Text.startsWith start s.toList

end Word

end Graft
