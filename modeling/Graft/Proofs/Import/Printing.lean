import Graft.Proofs.Import.Reading
import Graft.Proofs.Text.Scanning
import Graft.Proofs.Text.Segments

/-!
# Named imports are read back

A text of named imports is printed as fillers with one spelling between each two of them. The fillers do
not have the word `import` in them, so nothing is read where one of them stands (`read?_filler`), and each
spelling is read as a whole, whatever its names and its specifier are. Its brace list is printed from
pieces, as every list is (`exists_listed`), and the names are those of the pieces that have one
(`namesOf_join`). So the named imports of a file are those that were printed (`all_print`).
-/

namespace Graft.Import

/-! ## Brace lists -/

/-- A piece of a brace list: a name with white space around it, or an empty name and nothing but white
space. -/
structure Piece where
  /-- The white space in front of the name. -/
  before : Text
  /-- The name, which may be empty. -/
  name : Text
  /-- The white space behind the name. -/
  after : Text
  /-- There is nothing but white space in front of the name. -/
  isBlank_before : before.all Alphabet.isSpace = true
  /-- There is nothing but white space behind the name. -/
  isBlank_after : after.all Alphabet.isSpace = true
  /-- The name does not start with white space. -/
  start : name.head?.any Alphabet.isSpace = false
  /-- The name does not end with white space. -/
  stop : name.getLast?.any Alphabet.isSpace = false
  /-- The name is one piece. -/
  noComma : ',' ∉ name

/-- The text of a piece. -/
def Piece.text (p : Piece) : Text := p.before ++ (p.name ++ p.after)

/-- A test that a character is missing or no white space. -/
theorem any_isSpace_eq_false_iff {o : Option Char} :
    o.any Alphabet.isSpace = false ↔ ∀ c ∈ o, Alphabet.isSpace c = false := by
  cases o <;> simp

/-- There is no comma in a piece. -/
theorem Piece.comma_notMem (p : Piece) : ',' ∉ p.text := by
  have hblank : ∀ t : Text, t.all Alphabet.isSpace = true → ',' ∉ t := fun t ht hmem =>
    absurd (List.all_eq_true.mp ht ',' hmem) (by decide)
  simp [text, hblank _ p.isBlank_before, hblank _ p.isBlank_after, p.noComma]

/-- What is left of a piece without the white space around it is its name. -/
theorem Piece.trim_text (p : Piece) : Text.trim p.text = p.name := by
  have hbefore := List.all_eq_true.mp p.isBlank_before
  have hafter := List.all_eq_true.mp p.isBlank_after
  unfold text Text.trim
  rw [Text.trimStart_blank hbefore]
  cases hname : p.name with
  | nil =>
    rw [List.nil_append, ← List.append_nil p.after, Text.trimStart_blank hafter]
    rfl
  | cons c name =>
    have hstart : ∀ d ∈ (c :: name ++ p.after).head?, Alphabet.isSpace d = false := by
      simpa [hname] using p.start
    have hstop : ∀ d ∈ p.name.getLast?, Alphabet.isSpace d = false := any_isSpace_eq_false_iff.mp p.stop
    rw [Text.trimStart_of_head? hstart, ← hname]
    exact Text.trimEndBy_eq hstop hafter

/-- Every text without commas is a piece. -/
theorem exists_piece {t : Text} (h : ',' ∉ t) : ∃ p : Piece, p.text = t := by
  obtain ⟨before, ht, hbefore⟩ := Text.exists_trimStart t
  obtain ⟨after, htrim, hafter⟩ := Text.trimEndBy_append Alphabet.isSpace (Text.trimStart t)
  have hwhole : before ++ (Text.trim t ++ after) = t := by
    rw [Text.trim, Text.trimEnd, ← htrim, ← ht]
  have hstart : ∀ c ∈ (Text.trim t).head?, Alphabet.isSpace c = false := fun c hc => by
    refine Text.trimStart_head? t c ?_
    rw [htrim]
    exact List.mem_head?_append_of_mem_head? hc
  have hstop := Text.trimEndBy_getLast? Alphabet.isSpace (Text.trimStart t)
  refine ⟨⟨before, Text.trim t, after, List.all_eq_true.mpr hbefore, List.all_eq_true.mpr hafter,
    any_isSpace_eq_false_iff.mpr hstart, any_isSpace_eq_false_iff.mpr hstop, fun hmem => h ?_⟩, hwhole⟩
  rw [← hwhole]
  simp [hmem]

/-- Texts without commas are pieces. -/
theorem exists_pieces (ts : List Text) (h : ∀ t ∈ ts, ',' ∉ t) : ∃ pieces : List Piece, pieces.map Piece.text = ts := by
  induction ts with
  | nil => exact ⟨[], rfl⟩
  | cons t ts ih =>
    obtain ⟨p, rfl⟩ := exists_piece (h t List.mem_cons_self)
    obtain ⟨pieces, rfl⟩ := ih fun t ht => h t (List.mem_cons_of_mem _ ht)
    exact ⟨p :: pieces, rfl⟩

/-- The names of a list that is printed from pieces are those of the pieces that have one. -/
theorem namesOf_join {pieces : List Piece} (hne : pieces ≠ []) :
    namesOf (Text.joinWith [','] (pieces.map Piece.text)) =
      ((pieces.map Piece.name).filter (· ≠ [])).map String.ofList := by
  have hcommas : ∀ t ∈ pieces.map Piece.text, ',' ∉ t := by
    intro t ht
    obtain ⟨p, -, rfl⟩ := List.mem_map.mp ht
    exact p.comma_notMem
  have htrim : (pieces.map Piece.text).map Text.trim = pieces.map Piece.name := by
    rw [List.map_map]
    exact List.map_congr_left fun p _ => p.trim_text
  unfold namesOf
  rw [Text.splitOn_joinWith (by simpa using hne) hcommas, htrim]
  congr 2
  funext name
  cases name <;> rfl

/-- A named import to print: its brace list is printed from pieces. -/
structure Listed extends Spelling where
  /-- The pieces of the list. -/
  pieces : List Piece
  /-- The list is its pieces with commas in between. -/
  list_eq : list = Text.joinWith [','] (pieces.map Piece.text)

/-- Every named import as it stands in a text can be printed. -/
theorem exists_listed (s : Spelling) : ∃ l : Listed, l.toSpelling = s := by
  obtain ⟨pieces, hpieces⟩ := exists_pieces (Text.splitOn ',' s.list) fun t ht =>
    Text.separator_notMem_of_mem_splitOn ht
  exact ⟨⟨s, pieces, by rw [hpieces, Text.joinWith_splitOn]⟩, rfl⟩

/-- The names of a named import that is printed: those of its pieces, but for empty ones. -/
def Listed.names (l : Listed) : List String := ((l.pieces.map Piece.name).filter (· ≠ [])).map String.ofList

/-- The named import that is printed in the file at `containing`. -/
def Listed.made (containing : String) (l : Listed) : Import where
  names := l.names
  specifier := String.ofList l.quoted.specifier
  url := Specifier.resolve (String.ofList l.quoted.specifier) containing

/-- What is printed says the named import that is meant. -/
theorem Listed.ofClause_clause (containing : String) (l : Listed) :
    ofClause containing l.clause = l.made containing := by
  have hne : l.pieces ≠ [] := by
    intro hnil
    refine l.list_ne_nil ?_
    rw [l.list_eq, hnil]
    rfl
  have hnames : namesOf l.list = l.names := by rw [l.list_eq, namesOf_join hne, names]
  unfold ofClause made
  rw [← hnames]
  rfl

/-! ## Texts of named imports -/

/-- A stretch of text between named imports. The word `import` is nowhere in it, not even as a part of
another word. -/
structure Filler where
  /-- What stands there. -/
  text : Text
  /-- It has no `import` in it. -/
  noImport : ¬ "import".toList <:+: text

/-- A text of named imports: a filler, and behind it named imports with a filler each. -/
def print (first : Filler) (later : List (Listed × Filler)) : Text :=
  first.text ++ later.flatMap fun part => part.1.text ++ part.2.text

/-- Behind the first filler stand a named import and the rest of the text. -/
theorem print_cons (first next : Filler) (s : Listed) (later : List (Listed × Filler)) :
    print first ((s, next) :: later) = first.text ++ (s.text ++ print next later) := by
  simp only [print, List.flatMap_cons, List.append_assoc]

/-- A spelling starts with the first letter of `import`. -/
theorem Spelling.head?_append (s : Spelling) (rest : Text) : (s.text ++ rest).head? = some 'i' := rfl

/-- A spelling is not empty. -/
theorem Spelling.text_ne_nil (s : Spelling) : s.text ≠ [] := by
  intro h
  have hhead := s.head?_append []
  rw [h] at hhead
  cases hhead

/-- Nothing is read where a filler stands, before a named import or at the end. -/
theorem read?_filler {front behind rest : Text} (first : Filler) (hfirst : first.text = front ++ behind)
    (hbehind : behind ≠ []) (hrest : ∀ c ∈ rest.head?, c = 'i') : Clause.read? (behind ++ rest) = none := by
  rw [Option.eq_none_iff_forall_ne_some]
  rintro ⟨clause, tail⟩ hread
  obtain ⟨s, -, hs⟩ := Clause.read?_eq_some_iff.mp hread
  rw [s.text_append] at hs
  rcases List.append_eq_append_iff.mp hs with ⟨more, hword, hmore⟩ | ⟨more, hmore, -⟩
  · cases more with
    | nil => exact first.noImport ⟨front, [], by rw [hfirst, hword]; simp⟩
    | cons c more =>
      -- The rest would go on with a later letter of `import`, but the first letter is none of them.
      have hc : c = 'i' := hrest c (by rw [hmore]; rfl)
      obtain ⟨d, behind, rfl⟩ := List.exists_cons_of_ne_nil hbehind
      have htail : "mport".toList = behind ++ c :: more := (List.cons.inj hword).2
      have hmem : 'i' ∈ "mport".toList := by rw [htail, hc]; simp
      exact absurd hmem (by decide)
  · exact first.noImport ⟨front, more, by rw [hfirst, hmore, List.append_assoc]⟩

/-- A scan for named imports finds those that are printed. -/
theorem scan_print (lineStart : Bool) (first : Filler) (later : List (Listed × Filler)) :
    (Scan.go (fun _ => Scan.ofReader Clause.read?) 0 lineStart (print first later)).filterMap
      Scan.Piece.value? = later.map fun part => part.1.clause := by
  -- A filler gives no values, before any named import.
  have hfiller : ∀ (first : Filler) (lineStart : Bool) (rest : Text), (∀ c ∈ rest.head?, c = 'i') →
      (Scan.go (fun _ => Scan.ofReader Clause.read?) 0 lineStart (first.text ++ rest)).filterMap
        Scan.Piece.value? =
      (Scan.go (fun _ => Scan.ofReader Clause.read?) 0 (Scan.lineStartAfter lineStart first.text)
        rest).filterMap Scan.Piece.value? := by
    intro first lineStart rest hrest
    have hnone : ∀ front behind, first.text = front ++ behind → behind ≠ [] →
        Scan.ofReader Clause.read? (behind ++ rest) = none := fun front behind hfirst hbehind => by
      rw [Scan.ofReader, read?_filler first hfirst hbehind hrest, Option.map_none]
    rw [Scan.go_plain hnone, List.filterMap_append, Scan.filterMap_value?_plain, List.nil_append]
  induction later generalizing first lineStart with
  | nil =>
    have hprint : print first [] = first.text ++ [] := rfl
    rw [hprint, hfiller first lineStart [] (by simp)]
    rfl
  | cons part later ih =>
    obtain ⟨s, next⟩ := part
    have hread : Clause.read? (s.text ++ print next later) = some (s.clause, print next later) :=
      Clause.read?_eq_some_iff.mpr ⟨s.toSpelling, rfl, rfl⟩
    rw [print_cons, hfiller first lineStart _ (by rw [s.head?_append]; simp),
      Scan.go_found s.text_ne_nil (Scan.ofReader_append hread)]
    exact congrArg (s.clause :: ·) (ih _ next)

/-- Every spelling of a named import can be printed from pieces of its brace list. The named imports of a
text are those that were printed in it, in their order, with the names of the pieces that have one, with
their specifiers as they are written and with the URLs that these name. -/
theorem all_print :
    (∀ s : Spelling, ∃ l : Listed, l.toSpelling = s) ∧
    ∀ (containing : String) (first : Filler) (later : List (Listed × Filler)),
      all (print first later) containing = later.map fun part => part.1.made containing := by
  refine ⟨exists_listed, fun containing first later => ?_⟩
  rw [all, Scan.all_eq, scan_print, List.map_map]
  exact List.map_congr_left fun part _ => part.1.ofClause_clause containing

/-- Two named imports with text around them: a list over two lines with white space around its names, a piece
that is empty and one that is nothing but a line feed, and a list whose only name has a space in it. -/
theorem all_print_lists :
    all "// Two:\nimport \x7b pad ,, trim,\n\x7d from './u'\nimport \x7ba as b\x7d\tfrom \"./v\"\n\x7b\x7d".toList
        "https://x.test/p.js" =
      [⟨["pad", "trim"], "./u", "https://x.test/u.js"⟩, ⟨["a as b"], "./v", "https://x.test/v.js"⟩] := by
  let first : Filler := ⟨"// Two:\n".toList, by decide +kernel⟩
  let pad : Listed := {
    list := " pad ,, trim,\n".toList
    quoted := ⟨"./u".toList, '\'', '\'', by decide, by simp; decide, rfl, rfl⟩
    afterImport := [' '], afterList := [' '], afterFrom := [' ']
    list_ne_nil := by decide
    noBrace := by decide
    isAfterImport := isSpacing_singleton rfl
    isAfterList := isSpacing_singleton rfl
    isAfterFrom := isSpacing_singleton rfl
    pieces := [⟨" ".toList, "pad".toList, " ".toList, rfl, rfl, rfl, rfl, by decide⟩,
      ⟨[], [], [], rfl, rfl, rfl, rfl, by decide⟩,
      ⟨" ".toList, "trim".toList, [], rfl, rfl, rfl, rfl, by decide⟩,
      ⟨"\n".toList, [], [], rfl, rfl, rfl, rfl, by decide⟩]
    list_eq := rfl }
  let between : Filler := ⟨"\n".toList, by decide +kernel⟩
  let a : Listed := {
    list := "a as b".toList
    quoted := ⟨"./v".toList, '"', '"', by decide, by simp; decide, rfl, rfl⟩
    afterImport := [' '], afterList := ['\t'], afterFrom := [' ']
    list_ne_nil := by decide
    noBrace := by decide
    isAfterImport := isSpacing_singleton rfl
    isAfterList := isSpacing_singleton rfl
    isAfterFrom := isSpacing_singleton rfl
    pieces := [⟨[], "a as b".toList, [], rfl, rfl, rfl, rfl, by decide⟩]
    list_eq := rfl }
  let last : Filler := ⟨"\n\x7b\x7d".toList, by decide +kernel⟩
  have himports := all_print.2 "https://x.test/p.js" first [(pad, between), (a, last)]
  have hmade : [pad, a].map (Listed.made "https://x.test/p.js") =
      [⟨["pad", "trim"], "./u", "https://x.test/u.js"⟩, ⟨["a as b"], "./v", "https://x.test/v.js"⟩] := by
    decide +kernel
  exact himports.trans hmade

end Graft.Import
