import Graft.Text.Basic

/-!
# The buffer

The buffer is the text of the growing object together with where each part of it comes from: the
spans of the members put into it carry the file they come from, and all else comes from the file of
the entry. Positions are byte offsets. Members go in before the last closing brace, after a comma if
one is needed; uses of a name are redirected file by file, and the spans move along.
-/

namespace Graft

/-- The bytes of a member in the buffer, from `start` up to `stop`, and the file it comes from. -/
structure Span where
  start : Nat
  stop : Nat
  source : String
  deriving DecidableEq, Repr, Inhabited

/-- The text of the growing object and where its parts come from. -/
structure Buffer where
  text : Text
  /-- The file that everything outside the members comes from. -/
  origin : String
  /-- The members, in the order in which they were put in. -/
  members : List Span
  deriving DecidableEq, Repr, Inhabited

/-- A change of the text at one place: where it was in the old text, and by how much the text got
longer there. -/
structure Edit where
  start : Nat
  growth : Int
  deriving DecidableEq, Repr

namespace Buffer

/-- A buffer without members. -/
def ofText (text : Text) (origin : String) : Buffer := ⟨text, origin, []⟩

/-- The text before the last closing brace, and the text from that brace on. -/
def atLastBrace? (b : Buffer) : Option (Text × Text) := Text.splitAtLast '}' b.text

/-- The position of the last closing brace. -/
def lastBrace? (b : Buffer) : Option Nat := b.atLastBrace?.map fun parts => Text.byteLength parts.1

/-- Spans after `length` bytes are put in at `position`: a span that starts there or later moves, and
one that ends later grows. -/
def shift (position length : Nat) (s : Span) : Span :=
  { s with
    start := if position ≤ s.start then s.start + length else s.start
    stop := if position < s.stop then s.stop + length else s.stop }

/-- Whether a text is ready for another member: it ends in a comma or an opening brace. -/
def isOpen (text : Text) : Bool := Text.endsWith ',' text || Text.endsWith '{' text

/-- The buffer with a comma after the last thing before the last closing brace, unless an opening
brace or a comma stands there, and whether a comma was put in. Without a closing brace there is none.
-/
def separate? (b : Buffer) : Option (Buffer × Bool) := do
  let (before, fromBrace) ← b.atLastBrace?
  let kept := Text.trimEnd before
  if isOpen kept then return (b, false)
  else
    return ({ b with
      text := kept ++ [','] ++ before.drop kept.length ++ fromBrace
      members := b.members.map (shift (Text.byteLength kept) 1) }, true)

/-- The buffer with a member from the file `source` before the last closing brace. -/
def insert? (b : Buffer) (member : Text) (source : String) : Option Buffer := do
  let (b, _) ← b.separate?
  let (before, fromBrace) ← b.atLastBrace?
  let start := Text.byteLength before
  let length := Text.byteLength member
  return { b with
    text := before ++ member ++ fromBrace
    members := b.members.map (shift start length) ++ [⟨start, start + length, source⟩] }

/-- The file that the text at a position comes from. -/
def sourceAt (b : Buffer) (position : Nat) : String :=
  match b.members.find? fun s => s.start ≤ position && position < s.stop with
  | some s => s.source
  | none => b.origin

/-- A stretch of text as a search for a name sees it. -/
inductive Stretch where
  /-- A character outside every occurrence. -/
  | plain (c : Char)
  /-- An occurrence of the name, where it starts, and whether it is free. -/
  | occurrence (start : Nat) (isFree : Bool)
  deriving DecidableEq, Repr

/-- Whether a name may start after the character before it: no identifier character and no dot. -/
def freeBefore : Option Char → Bool
  | none => true
  | some c => !Alphabet.isIdentifier c && c ≠ '.'

/-- Whether a name may end before the character after it: no identifier character. -/
def freeAfter : Option Char → Bool
  | none => true
  | some c => !Alphabet.isIdentifier c

/-- The stretches of a text that starts at `position` after the character `last`; the last
occurrence covers `covered` more characters. Occurrences are taken from left to right and do not
overlap. -/
def stretchesFrom (name : Text) : (covered position : Nat) → (last : Option Char) → Text → List Stretch
  | _, _, _, [] => []
  | covered + 1, position, _, c :: rest =>
    stretchesFrom name covered (position + c.utf8Size) (some c) rest
  | 0, position, last, c :: rest =>
    match Text.after? name (c :: rest) with
    | some tail =>
      .occurrence position (freeBefore last && freeAfter tail.head?) ::
        stretchesFrom name (name.length - 1) (position + c.utf8Size) (some c) rest
    | none => .plain c :: stretchesFrom name 0 (position + c.utf8Size) (some c) rest

/-- The stretches of a text around the occurrences of a name. -/
def stretches (name text : Text) : List Stretch := stretchesFrom name 0 0 none text

/-- What a free occurrence is replaced by, as the file it stands in resolves the name. -/
def replacement? (b : Buffer) (resolve : String → Option String) : Stretch → Option (Nat × Text)
  | .occurrence start true => (resolve (b.sourceAt start)).map fun r => (start, r.toList)
  | _ => none

/-- The changes that redirecting a name makes. -/
def edits (b : Buffer) (name : String) (resolve : String → Option String) : List Edit :=
  (stretches name.toList b.text).filterMap fun s =>
    (b.replacement? resolve s).map fun (start, r) =>
      ⟨start, (Text.byteLength r : Int) - Text.byteLength name.toList⟩

/-- The text of a stretch after redirecting a name. -/
def redirected (b : Buffer) (name : String) (resolve : String → Option String) (s : Stretch) : Text :=
  match b.replacement? resolve s with
  | some (_, r) => r
  | none =>
    match s with
    | .plain c => [c]
    | .occurrence _ _ => name.toList

/-- By how much changes before a position made the text longer. -/
def growthBefore (position : Nat) : List Edit → Int
  | [] => 0
  | e :: changes =>
    if e.start < position then e.growth + growthBefore position changes
    else growthBefore position changes

/-- Where a position is after changes: it moves by what the text grew before it. -/
def moved (changes : List Edit) (position : Nat) : Nat :=
  ((position : Int) + growthBefore position changes).toNat

/-- The buffer with each free use of `name` replaced by what `resolve` says of the file that the use
comes from, and how many uses were replaced. -/
def redirect (b : Buffer) (name : String) (resolve : String → Option String) : Buffer × Nat :=
  if name.isEmpty then (b, 0)
  else
    let changes := b.edits name resolve
    if changes.isEmpty then (b, 0)
    else
      ({ b with
        text := (stretches name.toList b.text).flatMap (b.redirected name resolve)
        members := b.members.map fun s =>
          { s with start := moved changes s.start, stop := moved changes s.stop } }, changes.length)

end Buffer

end Graft
