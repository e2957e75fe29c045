import Graft.Proofs.Buffer.Composed

/-!
# Text that knows where it comes from

A tagged text is a text in which each character carries the file that it comes from. The ways to
change a buffer are changes of tagged texts: `Tagged.Step` says what each of them does, without any
position. Members and commas go in where the text says; a replacement is tagged like the use in whose
place it stands; and whether a use is replaced is up to the file in its tag. The file of a separating
comma is left open.
-/

namespace Graft

open Lexeme (IsLetter StartsApart EndsApart Apart resolve resolveFrom)

/-- A text whose characters carry the files that they come from. -/
abbrev Tagged := List (Char × String)

/-- A way to change a buffer. -/
inductive Change where
  /-- Makes it ready for another member. -/
  | separate
  /-- Puts in a member from a file. -/
  | insert (member : Text) (source : String)
  /-- Replaces the free uses of a name by what is said of the files they are in. -/
  | redirect (name : String) (answer : String → Option String)

namespace Change

/-- What a change needs: members and replacements are not empty, and a name consists of identifier
characters. -/
def Admissible : Change → Prop
  | .separate => True
  | .insert member _ => member ≠ []
  | .redirect name answer =>
    Alphabet.IsName name.toList ∧ ∀ source r, answer source = some r → r ≠ ""

end Change

namespace Tagged

/-- The text of one file. -/
def ofText (text : Text) (source : String) : Tagged := text.map fun c => (c, source)

/-- The text without its tags. -/
def plain (t : Tagged) : Text := t.map Prod.fst

/-- A tagged text falls into what is kept before the last closing brace, white space, and the brace
with what follows it. -/
structure LastBrace (t kept blank fromBrace : Tagged) : Prop where
  eq : t = kept ++ (blank ++ fromBrace)
  kept : ∀ a ∈ kept.getLast?, Alphabet.isSpace a.1 = false
  blank : ∀ a ∈ blank, Alphabet.isSpace a.1 = true
  brace : ∃ a rest, fromBrace = a :: rest ∧ a.1 = '}' ∧ ∀ c ∈ rest, c.1 ≠ '}'

/-- Whether a member may follow: the text ends with a comma or an opening brace. -/
def Opens (t : Tagged) : Prop := ∃ a ∈ t.getLast?, a.1 = ',' ∨ a.1 = '{'

/-- A text that is ready for a member stays as it is; any other one gets a comma of some file. -/
inductive Separates : Tagged → Tagged → Prop
  | ready {t kept blank fromBrace : Tagged} (h : LastBrace t kept blank fromBrace)
      (hopen : Opens kept) : Separates t t
  | comma {t kept blank fromBrace : Tagged} (h : LastBrace t kept blank fromBrace)
      (hclosed : ¬ Opens kept) (file : String) :
      Separates t (kept ++ (',', file) :: (blank ++ fromBrace))

/-- A text with the free uses of a name replaced by what is said of their files; what is put in comes
from the file of the use. -/
def redirected (name : String) (answer : String → Option String) (t : Tagged) : Tagged :=
  resolve Prod.fst (fun run =>
    if plain run = name.toList then
      run.head?.bind fun a => (answer a.2).map fun r => ofText r.toList a.2
    else none) t

/-- What a change does to a tagged text, and which file it gets a member from. -/
inductive Step : Change → Tagged → Tagged → Option String → Prop
  | separate {t u : Tagged} (h : Separates t u) : Step .separate t u none
  | insert {t kept blank fromBrace : Tagged} {member : Text} {source : String} {u : Tagged}
      (h : Separates t u) (hbrace : LastBrace u kept blank fromBrace) :
      Step (.insert member source) t
        (kept ++ (blank ++ (ofText member source ++ fromBrace))) (some source)
  | redirect {t : Tagged} (name : String) (answer : String → Option String) :
      Step (.redirect name answer) t (redirected name answer t) none
  /-- Without a closing brace there is no place for a comma or a member. -/
  | refused {t : Tagged} {change : Change} (h : '}' ∉ plain t)
      (hchange : ∀ name answer, change ≠ .redirect name answer) : Step change t t none

/-- What changes one after the other do, and which files they get members from, in order. -/
inductive Steps : List Change → Tagged → Tagged → List String → Prop
  | nil (t : Tagged) : Steps [] t t []
  | cons {change : Change} {changes : List Change} {t u v : Tagged} {source? : Option String}
      {sources : List String} (h : Step change t u source?) (hs : Steps changes u v sources) :
      Steps (change :: changes) t v (source?.toList ++ sources)

variable {t u : Tagged} {name : String} {answer : String → Option String}

/-- Tagging a text with a file keeps its characters. -/
@[simp]
theorem plain_ofText (t : Text) (source : String) : plain (ofText t source) = t := by
  rw [plain, ofText, List.map_map]
  exact List.map_id t

/-- Parts that are apart are redirected one by one. -/
theorem redirected_append (h : Apart Prod.fst t u) :
    redirected name answer (t ++ u) = redirected name answer t ++ redirected name answer u :=
  Lexeme.resolve_append h

end Tagged

namespace Buffer

/-- A buffer after a change; one that cannot be made changes nothing. -/
def change (b : Buffer) : Change → Buffer
  | .separate => (b.separate?.map Prod.fst).getD b
  | .insert member source => (b.insert? member source).getD b
  | .redirect name answer => (b.redirect name answer).1

/-- The characters of a text that starts at `position`, each with the file that the buffer names for
its position. -/
def tagsFrom (b : Buffer) : (position : Nat) → Text → Tagged
  | _, [] => []
  | position, c :: rest => (c, b.sourceAt position) :: tagsFrom b (position + c.utf8Size) rest

/-- The text of a buffer with the file that the buffer names for each character's position. -/
def tagged (b : Buffer) : Tagged := b.tagsFrom 0 b.text

end Buffer

namespace Piece

/-- The characters of pieces, with the files of the pieces. -/
def cells (origin : String) (pieces : List Piece) : Tagged :=
  pieces.flatMap fun p => Tagged.ofText p.text (p.source origin)

variable {p : Piece} {pieces front back : List Piece} {origin : String}

/-- No pieces have no tagged characters. -/
@[simp]
theorem cells_nil : cells origin [] = [] := rfl

/-- Each character of a piece is tagged with the file of the piece. -/
@[simp]
theorem cells_cons :
    cells origin (p :: pieces) = Tagged.ofText p.text (p.source origin) ++ cells origin pieces := rfl

/-- The tagged characters of pieces follow each other. -/
@[simp]
theorem cells_append : cells origin (front ++ back) = cells origin front ++ cells origin back :=
  List.flatMap_append

/-- The characters of pieces are their text. -/
theorem plain_cells : Tagged.plain (cells origin pieces) = flat pieces := by
  induction pieces with
  | nil => rfl
  | cons p pieces ih =>
    rw [cells_cons, flat_cons, ← ih, Tagged.plain, List.map_append, ← Tagged.plain,
      Tagged.plain_ofText, ← Tagged.plain]

end Piece

namespace Buffer

open Piece (flat cells)

variable {b : Buffer} {pieces : List Piece}

/-- What follows a text is tagged from the position behind its bytes. -/
theorem tagsFrom_append (position : Nat) (t u : Text) :
    b.tagsFrom position (t ++ u) =
      b.tagsFrom position t ++ b.tagsFrom (position + Text.byteLength t) u := by
  induction t generalizing position with
  | nil => rfl
  | cons c t ih =>
    rw [List.cons_append, tagsFrom, tagsFrom, ih, List.cons_append, Text.byteLength_cons,
      Nat.add_assoc]

/-- The characters of a buffer are its text. -/
theorem plain_tagsFrom (position : Nat) (t : Text) : Tagged.plain (b.tagsFrom position t) = t := by
  induction t generalizing position with
  | nil => rfl
  | cons c t ih =>
    have := ih (position + c.utf8Size)
    rw [Tagged.plain] at this
    rw [tagsFrom, Tagged.plain, List.map_cons, this]

/-- Where the buffer names one file for a stretch of text, the text is tagged with it. -/
theorem tagsFrom_eq_ofText {t : Text} {position : Nat} {source : String}
    (h : ∀ p, position ≤ p → p < position + Text.byteLength t → b.sourceAt p = source) :
    b.tagsFrom position t = Tagged.ofText t source := by
  induction t generalizing position with
  | nil => rfl
  | cons c t ih =>
    have hsize := c.utf8Size_pos
    rw [Text.byteLength_cons] at h
    rw [tagsFrom, h position (le_refl _) (by omega),
      ih fun p hle hlt => h p (by omega) (by omega)]
    rfl

/-- What a composed buffer says of its characters is what its pieces say. -/
theorem Composed.tagged (h : Composed b pieces) : b.tagged = cells b.origin pieces := by
  -- The induction is on the pieces still to come, behind those that stand before them.
  have hrest : ∀ front back, pieces = front ++ back →
      b.tagsFrom (Text.byteLength (flat front)) (flat back) = cells b.origin back := by
    intro front back hpieces
    induction back generalizing front with
    | nil => rfl
    | cons p back ih =>
      subst hpieces
      have hnext := ih (front ++ [p]) (by simp)
      rw [Piece.flat_append, Text.byteLength_append, Piece.flat_cons, Piece.flat_nil,
        List.append_nil] at hnext
      rw [Piece.flat_cons, tagsFrom_append, Piece.cells_cons, hnext,
        tagsFrom_eq_ofText fun position hle hlt => h.sourceAt hle hlt]
  have := hrest [] pieces rfl
  rwa [Piece.flat_nil, Text.byteLength_nil, ← h.text] at this

/-- In a text of one file, redirecting a name is resolving it as that file says. -/
theorem redirected_ofText (name : String) (answer : String → Option String) (text : Text)
    (source : String) :
    Tagged.redirected name answer (Tagged.ofText text source) =
      Tagged.ofText (resolve id (sole name answer source) text) source := by
  apply Lexeme.resolveFrom_map (fun c => (c, source)) fun c => rfl
  intro run hne
  obtain ⟨c, rest, rfl⟩ := List.exists_cons_of_ne_nil hne
  have hplain : Tagged.plain ((c :: rest).map fun c => (c, source)) = c :: rest :=
    Tagged.plain_ofText _ _
  rw [hplain, sole, only]
  -- A run of one file asks that file, whichever of its characters is asked.
  split
  · simp only [List.map_cons, List.head?_cons, Option.bind_some, Option.map_map]
    rfl
  · rfl

/-- Texts that are apart are so with their tags. -/
theorem apart_of_plain {t u : Tagged} (h : Apart id (Tagged.plain t) (Tagged.plain u)) :
    Apart Prod.fst t u :=
  (Lexeme.apart_map Prod.fst fun _ => rfl).mp h

/-- The pieces of resolved rows have the tags of a redirected text. -/
theorem cells_resolveAs {name : String} {answer : String → Option String} {origin : String}
    (hparted : Piece.Parted pieces) :
    cells origin (pieces.map (Piece.resolveAs (sole name answer) origin)) =
      Tagged.redirected name answer (cells origin pieces) := by
  induction pieces with
  | nil => rfl
  | cons p pieces ih =>
    have happart : Apart Prod.fst (Tagged.ofText p.text (p.source origin)) (cells origin pieces) := by
      apply apart_of_plain
      rw [Tagged.plain_ofText, Piece.plain_cells]
      exact hparted.head
    rw [List.map_cons, Piece.cells_cons, Piece.cells_cons, ih hparted.tail,
      Tagged.redirected_append happart, redirected_ofText]
    rfl

end Buffer

end Graft
