import Graft.Reference
import Graft.Text.Casing
import Graft.Timestamp

/-!
# Notes

A note is Markdown text. Outside its fenced blocks, the first `repo:` or `entry:` line names the source
of its code; one of its blocks holds the code. A fence is opened by a line that starts with three or
more backticks or tildes, and closed by the next line whose fence starts with the opening one. The
block to write is the first one under a given heading, or else the first one of the note.
-/

namespace Graft

/-- Why a note cannot be read or written. -/
inductive NoteError where
  /-- No line names a source. -/
  | noSourceReference
  /-- There is no closed block. -/
  | noInsertLocation
  /-- The new body of the block is too long. -/
  | outputTooLarge (chars max : Nat)
  deriving DecidableEq, Repr, Inhabited

/-- The text of a note error. -/
def NoteError.message : NoteError → String
  | .noSourceReference => "note has no `repo:` or `entry:` line"
  | .noInsertLocation => "note has no fenced code block to write into"
  | .outputTooLarge chars max =>
    s!"inlined code is {chars} characters, over the {max} character limit"

/-- Where code comes from and when it was written. -/
structure Provenance where
  reference : String
  syncedAt : Timestamp
  deriving DecidableEq, Repr, Inhabited

/-- The line that tells a reader of the note where the code comes from. -/
def Provenance.comment (p : Provenance) : String :=
  s!"// Synced from {p.reference} at {p.syncedAt.print}"

/-- A closed block of a note. -/
structure Block where
  /-- The position of the first byte of the body. -/
  start : Nat
  /-- The position after the last byte of the body, where the closing fence's line starts. -/
  stop : Nat
  /-- What follows the opening fence on its line, if anything does. -/
  language : Option String
  deriving DecidableEq, Repr, Inhabited

/-- What a reader of a note sees: a heading or a closed block. -/
inductive Landmark where
  | heading (title : Text)
  | block (b : Block)
  deriving DecidableEq, Repr

namespace Note

/-- The fence that a line opens or closes: its run of three or more backticks or tildes. -/
def fence? (line : Text) : Option Text :=
  match Text.trimStart line with
  | [] => none
  | c :: rest =>
    let marks := c :: rest.takeWhile (· = c)
    if (c = Char.ofNat 0x60 || c = '~') && 3 ≤ marks.length then some marks else none

/-- The fence that is open after a line whose fence is `marks`. -/
def fenceAfter (opened : Option Text) (marks : Text) : Option Text :=
  match opened with
  | none => some marks
  | some marker => if (Text.after? marker marks).isSome then none else some marker

/-- Whether two characters are the same when case does not count. Beside the letters of ASCII, the long
s counts as an s. -/
def sameLetter (expected c : Char) : Bool :=
  c = expected || Casing.lowerChar c = [expected] && c.toNat < 0x80 || (expected = 's' && c.toNat = 0x17F)

/-- What follows a scheme and a host, or the whole text. -/
def skipHost (text : Text) : Text :=
  let afterScheme? :=
    Text.afterAlike? sameLetter "https://".toList text <|> Text.afterAlike? sameLetter "http://".toList text
  match afterScheme? with
  | none => text
  | some rest =>
    let isHostChar := fun c => !Alphabet.isSpace c && c ≠ '/'
    match rest.takeWhile isHostChar, rest.dropWhile isHostChar with
    | _ :: _, '/' :: path => path
    | _, _ => text

/-- A character of a repository's or an organisation's name. -/
def isNameChar (c : Char) : Bool := Alphabet.isWord c || c = '.' || c = '-'

/-- A repository's name without `.git` at its end, unless that is all of it. -/
def withoutGit (name : Text) : Text :=
  match Text.afterAlike? sameLetter "tig.".toList name.reverse with
  | some (c :: front) => (c :: front).reverse
  | _ => name

/-- Whether nothing but white space is left after at most one slash. -/
def isLineTail : Text → Bool
  | '/' :: rest => rest.all Alphabet.isSpace
  | rest => rest.all Alphabet.isSpace

/-- The repository that a line names: `repo:`, then `organization/repository` with or without a host
before it and `.git` or a slash after it. -/
def repoLine? (line : Text) : Option Reference := do
  let text ← Text.afterAlike? sameLetter "repo:".toList (Text.trimStart line)
  let text := skipHost (Text.trimStart text)
  let organization := text.takeWhile isNameChar
  let text ← Text.follow? "/" (text.dropWhile isNameChar)
  let name := text.takeWhile isNameChar
  if organization.isEmpty || name.isEmpty || !isLineTail (text.dropWhile isNameChar) then none
  else return .repository (String.ofList organization) (String.ofList (withoutGit name))

/-- The file that a line names: `entry:` and one word. -/
def entryLine? (line : Text) : Option Reference := do
  let text ← Text.afterAlike? sameLetter "entry:".toList (Text.trimStart line)
  let text := Text.trimStart text
  let word := text.takeWhile fun c => !Alphabet.isSpace c
  if word.isEmpty || !(text.drop word.length).all Alphabet.isSpace then none
  else return .file (String.ofList word)

/-- The first reference in these lines outside fences, where `opened` is the open fence. -/
def referenceIn? : (opened : Option Text) → List Text → Option Reference
  | _, [] => none
  | opened, line :: lines =>
    match fence? line with
    | some marks => referenceIn? (fenceAfter opened marks) lines
    | none =>
      if opened.isSome then referenceIn? opened lines
      else
        match repoLine? line <|> entryLine? line with
        | some r => some r
        | none => referenceIn? none lines

/-- The source that a note names. -/
def sourceReference (note : Text) : Except NoteError Reference :=
  match referenceIn? none (Text.lines note) with
  | some r => .ok r
  | none => .error .noSourceReference

/-- The title of a heading as titles are compared: without hash signs, trimmed, in lower case. -/
def title (heading : Text) : Text :=
  Casing.lower (Text.trim ((Text.trim heading).dropWhile (· = '#')))

/-- The open fence of a note: its marks, what follows them, and where the body starts. -/
structure Opened where
  marks : Text
  language : Option String
  start : Nat
  deriving DecidableEq, Repr

/-- What follows the opening fence on its line, if anything does. -/
def language? (line marks : Text) : Option String :=
  match Text.trim ((Text.trim line).drop marks.length) with
  | [] => none
  | info => some (String.ofList info)

/-- The landmarks of these lines, the first of which starts at `position`. -/
def landmarksFrom : (opened : Option Opened) → (position : Nat) → List Text → List Landmark
  | _, _, [] => []
  | some o, position, line :: lines =>
    let next := position + Text.byteLength line
    match fence? line with
    | some marks =>
      if (Text.after? o.marks marks).isSome then
        .block ⟨o.start, position, o.language⟩ :: landmarksFrom none next lines
      else landmarksFrom (some o) next lines
    -- What looks like a heading inside of a block is text of the block.
    | none => landmarksFrom (some o) next lines
  | none, position, line :: lines =>
    let next := position + Text.byteLength line
    match fence? line with
    | some marks => landmarksFrom (some ⟨marks, language? line marks, next⟩) next lines
    | none =>
      if Text.startsWith "#" (Text.trimStart line) then
        .heading (title line) :: landmarksFrom none next lines
      else landmarksFrom none next lines

/-- The headings and closed blocks of a note, in order. -/
def landmarks (note : Text) : List Landmark := landmarksFrom none 0 (Text.linesWithEnds note)

/-- The first block before any heading. -/
def leadingBlock? : List Landmark → Option Block
  | .block b :: _ => some b
  | _ => none

/-- The first block under the first heading of this title, before the next heading. -/
def blockUnder? (wanted : Text) : List Landmark → Option Block
  | [] => none
  | .heading t :: rest => if t = wanted then leadingBlock? rest else blockUnder? wanted rest
  | .block _ :: rest => blockUnder? wanted rest

/-- The first block. -/
def firstBlock? : List Landmark → Option Block
  | [] => none
  | .block b :: _ => some b
  | .heading _ :: rest => firstBlock? rest

/-- The block to write: the one under the heading if there is one, else the first of the note. -/
def insertBlock (note : Text) (heading : Option String) : Except NoteError Block :=
  let found := landmarks note
  let under := heading.bind fun h => blockUnder? (title h.toList) found
  match under <|> firstBlock? found with
  | some b => .ok b
  | none => .error .noInsertLocation

/-- The characters of a text up to a byte position, and the rest. -/
def splitAtByte : (position : Nat) → Text → Text × Text
  | _, [] => ([], [])
  | position, c :: rest =>
    if position = 0 then ([], c :: rest)
    else
      let (before, after) := splitAtByte (position - c.utf8Size) rest
      (c :: before, after)

/-- The text of a block's body. -/
def bodyText (note : Text) (b : Block) : Text :=
  (splitAtByte (b.stop - b.start) (splitAtByte b.start note).2).1

/-- The body of a block that holds code: the provenance line, and the code without white space at its
end, each with a line end. -/
def newBody (code : Text) (p : Provenance) : Text :=
  p.comment.toList ++ ['\n'] ++ Text.trimEnd code ++ ['\n']

/-- The note with a block's body replaced by code, unless that is longer than `max` characters. -/
def replaceBlock (note : Text) (b : Block) (code : Text) (p : Provenance) (max : Nat) :
    Except NoteError Text :=
  let body := newBody code p
  if max < body.length then .error (.outputTooLarge body.length max)
  else .ok ((splitAtByte b.start note).1 ++ body ++ (splitAtByte b.stop note).2)

end Note

end Graft
