import Graft.Proofs.Import.Statement
import Graft.Proofs.Text.Cut
import Graft.Proofs.Text.Scanning

/-!
# What taking the statements out leaves

Statements are taken out in one pass over the lines of the text as it is, so the two sides of a removed
statement may meet and make a new one: behind a statement that does not end its line, a second one then
starts that line, and `import` in front of a removed statement may go on behind it. A text in which this
happens is `Joined`. What is left of any other text has no statement at the start of a line, and taking
the statements out once more changes nothing (`strip_strip_iff`). A named import may be left behind as well
when other characters than those of a clause stand between its braces.
-/

namespace Graft.Import

open Scan (go kept lineStartAfter)

variable {text front line before span behind opened : Text} {lineStart : Bool}

/-- `line` is what follows the start of a line of `text`, up to the end of the text. -/
def StartsLine (text line : Text) : Prop := ∃ front, text = front ++ line ∧ lineStartAfter true front = true

/-- A named import stands at the front of a text, behind blanks. -/
def NamesImport (line : Text) : Prop := (Clause.read? (line.dropWhile Alphabet.isBlank)).isSome = true

/-- No line of a text starts with an import, be it a statement or a named import. -/
def Importless (text : Text) : Prop :=
  ∀ line, StartsLine text line → ¬IsStatement line ∧ ¬NamesImport line

/-- A named import is looked for behind the blanks. -/
instance : Decidable (NamesImport line) :=
  inferInstanceAs (Decidable ((Clause.read? (line.dropWhile Alphabet.isBlank)).isSome = true))

/-- The start of each line is looked at. -/
instance : Decidable (Importless text) :=
  decidable_of_iff (∀ n < text.length + 1, lineStartAfter true (text.take n) = true →
      ¬IsStatement (text.drop n) ∧ ¬NamesImport (text.drop n)) <| by
    constructor
    · rintro h line ⟨front, rfl, hfront⟩
      have hn : front.length < (front ++ line).length + 1 := by
        rw [List.length_append]
        omega
      simpa [hfront] using h front.length hn
    · intro h n _ hn
      exact h _ ⟨_, (List.take_append_drop n text).symm, hn⟩

/-- The first word of a text has only blanks before it on its line. -/
def FirstIndented (text : Text) : Prop :=
  ∃ blanks, (∀ c ∈ blanks, Alphabet.isBlank c = true) ∧ StartsLine text (blanks ++ Text.trimStart text)

/-- `span` is a statement that is removed from a text, and what is left stands before and behind it. -/
def Removes (lineStart : Bool) (text before span behind : Text) : Prop :=
  ∃ ps qs, go statement 0 lineStart text = ps ++ .found () span :: qs ∧ kept ps = before ∧ kept qs = behind

/-- The beginning of a statement, up to some place between `import` and the specifier. -/
def IsOpen (opened : Text) : Prop :=
  ∃ blanks gap, opened = blanks ++ ("import".toList ++ gap) ∧ (∀ c ∈ blanks, Alphabet.isBlank c = true) ∧
    ∀ c ∈ gap, isClauseChar c = true

/-- What is left of a text consists of `front` and a line that meets the place of a removed statement. -/
inductive Meets (lineStart : Bool) (text front : Text) : (line : Text) → Prop where
  /-- The line stood behind a removed statement that does not end its line. -/
  | behind {span line : Text} : Removes lineStart text front span line → lineStartAfter true span = false →
      Meets lineStart text front line
  /-- The line begins in front of a removed statement, with an `import` that is not at its specifier yet. -/
  | across {opened span behind : Text} : Removes lineStart text (front ++ opened) span behind →
      IsOpen opened → Meets lineStart text front (opened ++ behind)

/-- The two sides of a removed statement make a statement at the start of a line. -/
def Joined (text : Text) : Prop :=
  ∃ front line, Meets true text front line ∧ lineStartAfter true front = true ∧ IsStatement line

/-! ## One step of taking statements out -/

/-- Nothing is taken out where no line starts, nor where no statement stands. -/
theorem statement_eq_none_iff : statement lineStart text = none ↔ (lineStart = true → ¬IsStatement text) := by
  unfold statement IsStatement
  cases lineStart
  · simp
  · simp [Scan.ofReader]

/-- What is taken out is a statement, and it stands at the start of a line. -/
theorem exists_of_statement {found : Unit × Nat} (h : statement lineStart text = some found) :
    lineStart = true ∧ IsStatement text ∧
      ∃ span rest, text = span ++ rest ∧ span ≠ [] ∧ found = ((), span.length) := by
  have hstart : lineStart = true := by
    by_contra hfalse
    rw [statement_eq_none_iff.mpr fun htrue => absurd htrue hfalse] at h
    cases h
  subst hstart
  rw [statement, if_pos rfl, Scan.ofReader, Option.map_map, Option.map_eq_some_iff] at h
  obtain ⟨rest, hrest, rfl⟩ := h
  obtain ⟨s, ending, htext⟩ := afterStatement?_eq_some hrest
  have hne : s.text ++ ending ≠ [] := by
    intro hnil
    have hword : s.text = s.blanks ++ ("import".toList ++ (s.gap ++ s.quoted.text)) := rfl
    rw [hword] at hnil
    simp [Quoted.text] at hnil
  rw [← List.append_assoc] at htext
  refine ⟨rfl, by simp [IsStatement, hrest], s.text ++ ending, rest, htext, hne, ?_⟩
  simp only [Function.comp_apply, htext, List.length_append, Nat.add_sub_cancel]

/-- What is left of a text consists of the two sides of each removed statement. -/
theorem Removes.kept_eq (h : Removes lineStart text before span behind) :
    kept (go statement 0 lineStart text) = before ++ behind := by
  obtain ⟨ps, qs, hgo, rfl, rfl⟩ := h
  rw [hgo, Scan.kept_append, Scan.kept_found_cons]

/-- What is left of a text consists of the front and the line that meets the place. -/
theorem Meets.kept_eq (h : Meets lineStart text front line) :
    kept (go statement 0 lineStart text) = front ++ line := by
  cases h with
  | behind hremoves _ => exact hremoves.kept_eq
  | across hremoves _ => rw [hremoves.kept_eq, List.append_assoc]

/-- A character that is left stands in front of the rest. -/
theorem Removes.cons {c : Char} (hc : statement lineStart (c :: text) = none)
    (h : Removes (c = '\n') text before span behind) :
    Removes lineStart (c :: text) (c :: before) span behind := by
  obtain ⟨ps, qs, hgo, rfl, rfl⟩ := h
  exact ⟨.plain c :: ps, qs, by rw [Scan.go_plain_cons hc, hgo, List.cons_append], rfl, rfl⟩

/-- A character that is left stands in front of the front. -/
theorem Meets.cons {c : Char} (hc : statement lineStart (c :: text) = none)
    (h : Meets (c = '\n') text front line) : Meets lineStart (c :: text) (c :: front) line := by
  cases h with
  | behind hremoves hends => exact .behind (hremoves.cons hc) hends
  | across hremoves hopen => exact .across (hremoves.cons hc) hopen

/-- A statement that is taken out leaves nothing in front of the rest. -/
theorem Removes.after {first : Text} (hne : first ≠ [])
    (hfirst : statement lineStart (first ++ text) = some ((), first.length))
    (h : Removes (lineStartAfter lineStart first) text before span behind) :
    Removes lineStart (first ++ text) before span behind := by
  obtain ⟨ps, qs, hgo, rfl, rfl⟩ := h
  exact ⟨.found () first :: ps, qs, by rw [Scan.go_found hne hfirst, hgo, List.cons_append], rfl, rfl⟩

/-- A statement that is taken out leaves the front as it is. -/
theorem Meets.after {first : Text} (hne : first ≠ [])
    (hfirst : statement lineStart (first ++ text) = some ((), first.length))
    (h : Meets (lineStartAfter lineStart first) text front line) :
    Meets lineStart (first ++ text) front line := by
  cases h with
  | behind hremoves hends => exact .behind (hremoves.after hne hfirst) hends
  | across hremoves hopen => exact .across (hremoves.after hne hfirst) hopen

/-! ## A statement across a removed one -/

/-- A quoted specifier that goes on behind the end of a line ends in any text with a quotation mark. -/
theorem Quoted.exists_of_cut {q : Quoted} {cut rest more other : Text} {mark : Char}
    (hq : q.text ++ rest = cut ++ more) (hcut : lineStartAfter false cut = true) (hmark : mark ∈ other)
    (hquote : Alphabet.isQuote mark = true) : ∃ (p : Quoted) (tail : Text), cut ++ other = p.text ++ tail := by
  obtain ⟨first, inside, hinside⟩ := List.exists_cons_of_ne_nil q.ne_nil
  have htext : q.text ++ rest = q.opening :: first :: (inside ++ [q.closing] ++ rest) := by
    rw [Quoted.text, hinside]
    rfl
  rw [htext] at hq
  -- The end of the line is behind the opening mark, so the specifier has a character before it.
  rcases cut with _ | ⟨o, _ | ⟨c, cut⟩⟩
  · cases hcut
  · obtain rfl : q.opening = o := (List.cons.inj hq).1
    have hfeed : q.opening = '\n' := by simpa using hcut
    exact absurd q.isOpening (by rw [hfeed]; decide)
  · simp only [List.cons_append, List.cons.injEq] at hq
    obtain ⟨rfl, rfl, -⟩ := hq
    have hfirst : Alphabet.isQuote first = false := q.noQuote first (by simp [hinside])
    have hsplit := List.takeWhile_append_dropWhile (p := fun c => !Alphabet.isQuote c) (l := cut ++ other)
    cases hdrop : (cut ++ other).dropWhile fun c => !Alphabet.isQuote c with
    | nil =>
      have hnone := List.dropWhile_eq_nil_iff.mp hdrop mark (List.mem_append_right cut hmark)
      simp [hquote] at hnone
    | cons closing tail =>
      rw [hdrop] at hsplit
      have hclosing : Alphabet.isQuote closing = true := by
        simpa [hdrop] using List.head?_dropWhile_not (fun c => !Alphabet.isQuote c) (cut ++ other)
      refine ⟨⟨first :: (cut ++ other).takeWhile fun c => !Alphabet.isQuote c, q.opening, closing,
        List.cons_ne_nil _ _, ?_, q.isOpening, hclosing⟩, tail, ?_⟩
      · rw [List.forall_mem_cons]
        exact ⟨hfirst, fun d hd => by simpa using List.mem_takeWhile_imp hd⟩
      · simp only [Quoted.text, List.cons_append, List.append_assoc, List.nil_append, hsplit]

/-- If a statement goes on across a place where another one was removed, the place is in front of its
specifier. -/
theorem isOpen_of_isStatement (hne : opened ≠ []) (hline : lineStartAfter true opened = true)
    (hjoined : IsStatement (opened ++ behind)) (hapart : ¬IsStatement (opened ++ text))
    (hremoved : IsStatement text) : IsOpen opened := by
  obtain ⟨front, hfront⟩ := Scan.exists_concat_lineFeed hne hline
  have hfeed : '\n' ∈ opened := by simp [hfront]
  obtain ⟨s, rest, hs⟩ := isStatement_iff.mp hjoined
  rw [s.text_append, ← List.append_assoc] at hs
  have hword : '\n' ∉ s.blanks ++ "import".toList := by
    rw [List.mem_append, not_or]
    exact ⟨fun hmem => absurd (s.isBlank _ hmem) (by decide), by decide⟩
  rcases List.append_eq_append_iff.mp hs with ⟨more, hmore, -⟩ | ⟨gap, hgap, hs⟩
  · exact absurd (List.mem_append_left more hfeed) (hmore ▸ hword)
  rcases List.append_eq_append_iff.mp hs.symm with ⟨more, hmore, -⟩ | ⟨cut, hcut, hs⟩
  · refine ⟨s.blanks, gap, by rw [hgap, List.append_assoc], s.isBlank, fun c hc => ?_⟩
    exact isClauseChar_of_isGap s.isGap c (by rw [hmore]; exact List.mem_append_left more hc)
  · obtain rfl | hne := eq_or_ne cut []
    · rw [List.append_nil] at hcut
      exact ⟨s.blanks, gap, by rw [hgap, List.append_assoc], s.isBlank, hcut ▸ isClauseChar_of_isGap s.isGap⟩
    -- The place is behind the opening mark, so the specifier would go on into the removed statement.
    obtain ⟨t, tail, ht⟩ := isStatement_iff.mp hremoved
    have hmark : t.quoted.opening ∈ text := by
      rw [ht, t.text_append, Quoted.text]
      simp
    have hcutLine : lineStartAfter false cut = true := by
      obtain ⟨first, others, rfl⟩ := List.exists_cons_of_ne_nil hne
      rw [hgap, hcut] at hline
      simpa using hline
    obtain ⟨p, tail, hp⟩ := Quoted.exists_of_cut hs hcutLine hmark t.quoted.isOpening
    refine absurd (isStatement_iff.mpr ⟨⟨s.blanks, s.gap, p, s.isBlank, s.isGap⟩, tail, ?_⟩) hapart
    rw [Statement.text_append, hgap, hcut]
    simp only [List.append_assoc, hp]

/-- If what is left of a text starts with a statement and the text itself does not, the statement meets the
place of a removed one. -/
theorem meets_of_isStatement (h : ¬IsStatement text)
    (hkept : IsStatement (kept (go statement 0 true text))) :
    Meets true text [] (kept (go statement 0 true text)) := by
  obtain ⟨plain, rest, htext, hgo, hrest⟩ := Scan.exists_stretch statement true text
  rcases hrest with rfl | ⟨found, hfound⟩
  · have hsame : kept (go statement 0 true text) = text := by
      rw [hgo, Scan.kept_append, htext]
      exact congrArg (· ++ []) (Scan.filterMap_kept?_plain plain)
    exact absurd (hsame ▸ hkept) h
  · obtain ⟨hline, hremoved, span, rest, rfl, hspan, rfl⟩ := exists_of_statement hfound
    have hne : plain ≠ [] := by
      rintro rfl
      exact h (htext ▸ hremoved)
    rw [Scan.go_found hspan hfound] at hgo
    have hremoves : Removes true text plain span _ := ⟨_, _, hgo, Scan.filterMap_kept?_plain plain, rfl⟩
    rw [hremoves.kept_eq] at hkept ⊢
    exact .across hremoves (isOpen_of_isStatement hne hline hkept (htext ▸ h) hremoved)

/-! ## What is left -/

/-- A statement at the start of a line of what is left meets the place of a removed one, unless it is at the
very front where no line of the text starts. -/
theorem meets_or_first {startsLine : Bool} (hstart : lineStart = true → startsLine = true)
    (hkept : kept (go statement 0 lineStart text) = front ++ line)
    (hfront : lineStartAfter startsLine front = true) (h : IsStatement line) :
    (front = [] ∧ lineStart = false) ∨ Meets lineStart text front line := by
  -- The induction is on the length of the text, since a statement is taken off as a whole. The line is met
  -- behind the first removed one, or later.
  induction hn : text.length using Nat.strongRecOn generalizing text front lineStart startsLine with
  | ind n ih =>
    subst hn
    cases text with
    | nil =>
      obtain ⟨-, rfl⟩ := List.append_eq_nil_iff.mp hkept.symm
      exact absurd rfl h.ne_nil
    | cons c text =>
      cases hfind : statement lineStart (c :: text) with
      | none =>
        cases front with
        | nil =>
          cases lineStart with
          | false => exact Or.inl ⟨rfl, rfl⟩
          | true =>
            rw [List.nil_append] at hkept
            subst hkept
            exact Or.inr (meets_of_isStatement (statement_eq_none_iff.mp hfind rfl) h)
        | cons d front =>
          rw [Scan.go_plain_cons hfind, Scan.kept_plain_cons, List.cons_append, List.cons.injEq] at hkept
          obtain ⟨rfl, hkept⟩ := hkept
          rw [Scan.lineStartAfter_cons] at hfront
          rcases ih text.length (by simp) id hkept hfront rfl with ⟨rfl, hfalse⟩ | hmeets
          · rw [Scan.lineStartAfter_nil, hfalse] at hfront
            cases hfront
          · exact Or.inr (hmeets.cons hfind)
      | some found =>
        obtain ⟨rfl, -, span, rest, htext, hspan, rfl⟩ := exists_of_statement hfind
        rw [htext] at hfind hkept ⊢
        have hgo := Scan.go_found hspan hfind
        rw [hgo, Scan.kept_found_cons] at hkept
        rw [hstart rfl] at hfront
        have hshorter : rest.length < (c :: text).length := by
          have := List.length_pos_iff.mpr hspan
          rw [htext, List.length_append]
          omega
        rcases ih rest.length hshorter (fun _ => rfl) hkept hfront rfl with ⟨rfl, hends⟩ | hmeets
        · rw [List.nil_append] at hkept
          exact Or.inr (.behind ⟨[], _, hgo, rfl, hkept⟩ hends)
        · exact Or.inr (hmeets.after hspan hfind)

/-- A line of what is left starts with a statement exactly if the text is joined. -/
theorem joined_iff : Joined text ↔ ∃ line, StartsLine (strip text) line ∧ IsStatement line := by
  rw [strip, Scan.remove_eq]
  constructor
  · rintro ⟨front, line, hmeets, hfront, h⟩
    exact ⟨line, ⟨front, hmeets.kept_eq, hfront⟩, h⟩
  · rintro ⟨line, ⟨front, hkept, hfront⟩, h⟩
    rcases meets_or_first id hkept hfront h with ⟨-, hfalse⟩ | hmeets
    · cases hfalse
    · exact ⟨front, line, hmeets, hfront, h⟩

/-- Nothing is taken out of a text exactly if no line of it starts with a statement. -/
theorem strip_eq_self_iff : strip text = text ↔ ∀ line, StartsLine text line → ¬IsStatement line := by
  rw [strip, Scan.remove_eq, Scan.kept_go_eq_self_iff]
  constructor
  · rintro h line ⟨front, htext, hfront⟩ hline
    exact statement_eq_none_iff.mp (h front line htext hline.ne_nil) hfront hline
  · intro h front behind htext _
    exact statement_eq_none_iff.mpr fun hfront => h behind ⟨front, htext, hfront⟩

/-- Taking the statements out once more changes nothing exactly if the text is not joined. -/
theorem strip_strip_iff : strip (strip text) = strip text ↔ ¬Joined text := by
  rw [strip_eq_self_iff, joined_iff]
  simp only [not_exists, not_and]

/-! ## Named imports that are left -/

/-- A named import is read behind blanks exactly if it stands there. -/
theorem namesImport_iff :
    NamesImport line ↔ ∃ (blanks : Text) (s : Spelling) (rest : Text),
      (∀ c ∈ blanks, Alphabet.isBlank c = true) ∧ line = blanks ++ (s.text ++ rest) := by
  constructor
  · intro h
    obtain ⟨⟨clause, rest⟩, hread⟩ := Option.isSome_iff_exists.mp h
    obtain ⟨s, -, hs⟩ := Clause.read?_eq_some_iff.mp hread
    refine ⟨line.takeWhile Alphabet.isBlank, s, rest, fun c hc => List.mem_takeWhile_imp hc, ?_⟩
    rw [← hs, List.takeWhile_append_dropWhile]
  · rintro ⟨blanks, s, rest, hblanks, rfl⟩
    have hdrop : (blanks ++ (s.text ++ rest)).dropWhile Alphabet.isBlank = s.text ++ rest := by
      rw [List.dropWhile_append_of_pos hblanks]
      rfl
    rw [NamesImport, hdrop, Clause.read?_eq_some_iff.mpr ⟨s, rfl, rfl⟩, Option.isSome_some]

/-- Every named import at the start of a line has only characters of a clause between its braces. -/
def ClausesOnly (text : Text) : Prop :=
  ∀ (blanks : Text) (s : Spelling) (rest : Text), (∀ c ∈ blanks, Alphabet.isBlank c = true) →
    StartsLine text (blanks ++ (s.text ++ rest)) → ∀ c ∈ s.list, isClauseChar c = true

/-- No line starts with an import exactly if none starts with a statement and the named imports have only
characters of a clause between their braces. -/
theorem importless_iff :
    Importless text ↔ (∀ line, StartsLine text line → ¬IsStatement line) ∧ ClausesOnly text := by
  constructor
  · intro h
    refine ⟨fun line hline => (h line hline).1, fun blanks s rest hblanks hline => ?_⟩
    exact absurd (namesImport_iff.mpr ⟨blanks, s, rest, hblanks, rfl⟩) (h _ hline).2
  · rintro ⟨hstatement, hclauses⟩ line hline
    refine ⟨hstatement line hline, fun hnames => ?_⟩
    obtain ⟨blanks, s, rest, hblanks, rfl⟩ := namesImport_iff.mp hnames
    have hs := s.isStatement (hclauses blanks s rest hblanks hline) rest
    exact hstatement _ hline (hs.indent hblanks)

/-- Whatever follows it, a named import is one. -/
theorem NamesImport.append (h : NamesImport line) (rest : Text) : NamesImport (line ++ rest) := by
  obtain ⟨blanks, s, tail, hblanks, rfl⟩ := namesImport_iff.mp h
  exact namesImport_iff.mpr ⟨blanks, s, tail ++ rest, hblanks, by simp only [List.append_assoc]⟩

/-- Whatever blanks stand before it, a named import is one. -/
theorem NamesImport.indent {blanks : Text} (h : NamesImport line)
    (hblanks : ∀ c ∈ blanks, Alphabet.isBlank c = true) : NamesImport (blanks ++ line) := by
  obtain ⟨others, s, tail, hothers, rfl⟩ := namesImport_iff.mp h
  refine namesImport_iff.mpr ⟨blanks ++ others, s, tail, ?_, by simp only [List.append_assoc]⟩
  exact List.forall_mem_append.mpr ⟨hblanks, hothers⟩

/-! ## The object of an entry file -/

/-- What stands in front of a closing export is the front of the text. -/
theorem dropClosingExport_isPrefix (lineStart : Bool) (text : Text) :
    dropClosingExport lineStart text <+: text := by
  induction text generalizing lineStart with
  | nil => exact List.prefix_refl _
  | cons c text ih =>
    rw [dropClosingExport]
    split
    · exact List.nil_prefix
    · exact List.cons_prefix_cons.mpr ⟨rfl, ih _⟩

/-- A line of a front of a text, trimmed, is a line of the text up to blanks before it and what follows it. -/
theorem exists_startsLine_of_trim {part : Text} (hfirst : FirstIndented text) (hpart : part <+: text)
    (h : StartsLine (Text.trim part) line) (hne : line ≠ []) :
    ∃ blanks more, (∀ c ∈ blanks, Alphabet.isBlank c = true) ∧
      StartsLine text (blanks ++ (line ++ more)) := by
  obtain ⟨front, hline, hfront⟩ := h
  obtain ⟨cut, hcut⟩ : Text.trim part <+: Text.trimStart part := Text.trimEndBy_isPrefix _ _
  obtain ⟨rest, rfl⟩ := hpart
  have hstart : Text.trimStart (part ++ rest) = front ++ (line ++ (cut ++ rest)) := by
    have hsome : (Text.trimStart part).isEmpty = false := by
      rw [← hcut, hline]
      simp [hne]
    rw [Text.trimStart, List.dropWhile_append, ← Text.trimStart, hsome, if_neg Bool.false_ne_true, ← hcut,
      hline]
    simp only [List.append_assoc]
  obtain ⟨blanks, hblanks, lines, htext, hlines⟩ := hfirst
  rw [hstart] at htext
  -- The line is the first one of what is left, with the blanks before it, or a later one.
  cases front with
  | nil => exact ⟨blanks, cut ++ rest, hblanks, lines, htext, hlines⟩
  | cons c front =>
    refine ⟨[], cut ++ rest, by simp, lines ++ (blanks ++ c :: front), ?_, ?_⟩
    · rw [htext]
      simp only [List.append_assoc, List.nil_append]
    · simpa using hfront

/-- What is left of a text has no import at the start of a line exactly if the text is not joined and the
named imports that are left have only characters of a clause between their braces. Taking the statements
out once more changes nothing exactly if the text is not joined. The object of an entry file has no import
either, if only blanks stand before its first word on the line. -/
theorem strip_importless (text : Text) :
    (Importless (strip text) ↔ ¬Joined text ∧ ClausesOnly (strip text)) ∧
      (strip (strip text) = strip text ↔ ¬Joined text) ∧
      (Importless (strip text) → FirstIndented (strip text) → Importless (objectBody text)) := by
  refine ⟨?_, strip_strip_iff, ?_⟩
  · rw [importless_iff, joined_iff]
    simp only [not_exists, not_and]
  -- An import at a line of the object is one at a line of what is left, since trimming takes only blanks from
  -- the front of a line.
  · intro himportless hfirst line hline
    have hpart := dropClosingExport_isPrefix true (strip text)
    constructor
    · intro h
      obtain ⟨blanks, more, hblanks, hstarts⟩ := exists_startsLine_of_trim hfirst hpart hline h.ne_nil
      exact (himportless _ hstarts).1 ((h.append more).indent hblanks)
    · intro h
      have hne : line ≠ [] := by
        rintro rfl
        exact absurd h (by decide)
      obtain ⟨blanks, more, hblanks, hstarts⟩ := exists_startsLine_of_trim hfirst hpart hline hne
      exact (himportless _ hstarts).2 ((h.append more).indent hblanks)

/-- Of two statements, each on a line of its own, nothing is left in front of the object. -/
theorem strip_importless_two_lines :
    let text := "import {a} from './a'\nimport * as b from './b';\n{run() { a() }}\nexport default b".toList
    ¬Joined text ∧ Importless (strip text) ∧ FirstIndented (strip text) ∧ Importless (objectBody text) := by
  intro text
  have hstrip : strip text = "{run() { a() }}\nexport default b".toList := by decide +kernel
  have himportless : Importless (strip text) := by
    rw [hstrip]
    decide +kernel
  have hfirst : FirstIndented (strip text) := by
    rw [hstrip]
    exact ⟨[], by simp, [], by decide +kernel, rfl⟩
  obtain ⟨hleft, -, hbody⟩ := strip_importless text
  exact ⟨(hleft.mp himportless).1, himportless, hfirst, hbody himportless hfirst⟩

/-- Of two statements on one line the second is left, and only a second pass takes it out. A statement may also
be made of what stands before and behind a removed one, and a named import with a comment between its braces
stays as it is. -/
theorem strip_leaves_imports :
    (strip "import {a} from './a'; import {b} from './b'\n{}".toList = "import {b} from './b'\n{}".toList ∧
      ¬Importless "import {b} from './b'\n{}".toList ∧
      strip "import {b} from './b'\n{}".toList = "{}".toList) ∧
    (strip "import a,\nimport 'x'\n{b} from './b'\n{}".toList = "import a,\n{b} from './b'\n{}".toList ∧
      ¬Importless "import a,\n{b} from './b'\n{}".toList ∧
      strip "import a,\n{b} from './b'\n{}".toList = "{}".toList) ∧
    (strip "import {a /* x */} from './a'\n{}".toList = "import {a /* x */} from './a'\n{}".toList ∧
      ¬Importless "import {a /* x */} from './a'\n{}".toList) := by
  decide +kernel

end Graft.Import
