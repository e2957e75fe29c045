import Graft.Member
import Graft.Proofs.Text.Comment
import Graft.Proofs.Text.Front
import Graft.Proofs.Text.Lexeme
import Graft.Proofs.Text.Lines
import Graft.Proofs.Text.Space

/-!
# Rendered members

A member is rendered from what its declaration is spelled as, with every line indented. Its name is a
use in it, right behind its markers (`isUse_name`).
-/

namespace Graft.Member

open Lexeme (IsLetter IsUse StartsApart EndsApart)

/-- A text with every line indented by two spaces. -/
def indent (t : Text) : Text :=
  Text.joinWith ['\n'] ((Text.lines t).map fun line => ' ' :: ' ' :: line)

/-- What a declaration is spelled as, indented and without white space around it. -/
def trimmed (d : Declaration) (name : String) : Text := Text.trim (indent (spell d name))

/-- A member stands on lines of its own, and ends with a comma. -/
theorem render_eq (d : Declaration) (name : String) :
    render d name = ['\n', ' ', ' '] ++ (trimmed d name ++
      ((if Text.endsWith ',' (trimmed d name) then [] else [',']) ++ ['\n'])) := by
  unfold render trimmed indent
  simp

variable {head tail t : Text} {d : Declaration} {name : String}

/-- A start without a line feed that does not end with white space stays the start of the first line,
and what else there is comes from the rest of the text, or is white space. -/
theorem exists_indent_append (hne : head ≠ []) (h : '\n' ∉ head)
    (hlast : ∀ c ∈ head.getLast?, Alphabet.isSpace c = false) (tail : Text) :
    ∃ more, indent (head ++ tail) = ' ' :: ' ' :: (head ++ more) ∧
      ∀ c ∈ more, c ∈ tail ∨ Alphabet.isSpace c = true := by
  -- The start is not cut by a carriage return, since it does not end with one.
  have hreturn : ∀ c ∈ head.getLast?, c ≠ '\r' := by
    rintro c hc rfl
    exact absurd (hlast _ hc) (by decide)
  obtain ⟨first, others, hlines, hfirst, hothers⟩ := Text.exists_lines_append hne h hreturn tail
  obtain ⟨more, hmore, hmem⟩ := Text.exists_joinWith_cons ['\n'] (' ' :: ' ' :: (head ++ first))
    (others.map fun line => ' ' :: ' ' :: line)
  refine ⟨first ++ more, ?_, fun c hc => ?_⟩
  · unfold indent
    rw [hlines, List.map_cons, hmore]
    simp
  · rcases List.mem_append.mp hc with hc | hc
    · exact Or.inl (hfirst c hc)
    · rcases hmem c hc with hc | ⟨piece, hpiece, hc⟩
      · rw [List.mem_singleton.mp hc]
        exact Or.inr (by decide)
      · obtain ⟨line, hline, rfl⟩ := List.mem_map.mp hpiece
        simp only [List.mem_cons] at hc
        rcases hc with rfl | rfl | hc
        · exact Or.inr (by decide)
        · exact Or.inr (by decide)
        · exact Or.inl (hothers line hline c hc)

/-- Behind a line feed the indented lines are those of the rest. -/
theorem indent_append {rest : Text} (hrest : rest ≠ []) (front : Text) :
    indent (front ++ '\n' :: rest) = indent (front ++ ['\n']) ++ '\n' :: indent rest := by
  unfold indent
  rw [Text.lines_append, List.map_append, Text.joinWith_append]
  · rfl
  · simpa using Text.lines_ne_nil (t := front ++ ['\n']) (by simp)
  · simpa using Text.lines_ne_nil hrest

/-- A declaration is spelled with its markers, its name, and a parenthesis or a colon. -/
theorem exists_spell_eq (d : Declaration) (name : String) :
    ∃ marker c after, spell d name = marker ++ (name.toList ++ c :: after) ∧ (c = '(' ∨ c = ':') ∧
      marker ∈ [[], "async ".toList, ['*'], "async *".toList] := by
  unfold spell
  cases d.body with
  | block text =>
    refine ⟨(if d.isAsync then "async ".toList else []) ++ (if d.isGenerator then ['*'] else []), '(',
      d.parameters ++ ([')', ' ', '{'] ++ text), ?_, Or.inl rfl, ?_⟩
    · simp only [List.append_assoc, List.cons_append, List.nil_append]
    · cases d.isAsync <;> cases d.isGenerator <;> decide
  | expression text =>
    refine ⟨[], ':', ' ' :: ((if d.isAsync then "async ".toList else []) ++ (['('] ++ (d.parameters ++
      (")".toList ++ (" => ".toList ++ text))))), ?_, Or.inr rfl, List.mem_cons_self⟩
    simp only [List.append_assoc, List.cons_append, List.nil_append]

/-- The two spaces of the first line are trimmed off, and no more. -/
theorem trimStart_indented (h : ∀ c ∈ t.head?, Alphabet.isSpace c = false) :
    Text.trimStart (' ' :: ' ' :: t) = t := by
  have hblank : Alphabet.isSpace ' ' = true := by decide
  unfold Text.trimStart
  rw [List.dropWhile_cons_of_pos hblank, List.dropWhile_cons_of_pos hblank]
  exact Text.trimStart_of_head? h

/-- A start of the first line that neither starts nor ends with white space stays the start. -/
theorem exists_trimmed_append (hspell : spell d name = head ++ tail) (hne : head ≠ [])
    (h : '\n' ∉ head) (hfirst : ∀ c ∈ head.head?, Alphabet.isSpace c = false)
    (hlast : ∀ c ∈ head.getLast?, Alphabet.isSpace c = false) :
    ∃ more, trimmed d name = head ++ more := by
  obtain ⟨more, hindent, -⟩ := exists_indent_append hne h hlast tail
  have hstart : Text.trimStart (' ' :: ' ' :: (head ++ more)) = head ++ more := by
    apply trimStart_indented
    rwa [List.head?_append_of_ne_nil _ hne]
  unfold trimmed Text.trim
  rw [hspell, hindent, hstart]
  exact Text.exists_trimEndBy_append hlast more

/-- The name of a member is a use in it. -/
theorem isUse_name (hne : name.toList ≠ []) (hletters : ∀ c ∈ name.toList, IsLetter id c)
    (d : Declaration) :
    ∃ before after, render d name = before ++ name.toList ++ after ∧
      IsUse id before name.toList after := by
  obtain ⟨marker, c, after, hspell, hc, hmarker⟩ := exists_spell_eq d name
  have hspace : ∀ a ∈ name.toList, Alphabet.isSpace a = false := fun a ha =>
    Alphabet.isSpace_of_isIdentifier (hletters a ha)
  have hmarks : '\n' ∉ marker ∧ (∀ a ∈ marker.head?, Alphabet.isSpace a = false) ∧
      EndsApart id (['\n', ' ', ' '] ++ marker) := by
    simp only [List.mem_cons, List.not_mem_nil, or_false] at hmarker
    rcases hmarker with rfl | rfl | rfl | rfl <;> simp [EndsApart] <;> decide
  have hbehind : Alphabet.isSpace c = false ∧ c ≠ '\n' ∧ ¬ IsLetter id c := by
    rcases hc with rfl | rfl <;> decide
  -- The markers, the name and the character behind it are the start of the first line.
  have hstart : spell d name = (marker ++ (name.toList ++ [c])) ++ after := by
    rw [hspell]
    simp
  have hnewline : '\n' ∉ marker ++ (name.toList ++ [c]) := by
    have hname : '\n' ∉ name.toList := fun hmem => absurd (hletters _ hmem) (by decide)
    simp [hmarks.1, hname, hbehind.2.1.symm]
  have hfirst : ∀ a ∈ (marker ++ (name.toList ++ [c])).head?, Alphabet.isSpace a = false := by
    intro a ha
    rw [List.head?_append, Option.mem_def, Option.or_eq_some_iff] at ha
    rcases ha with ha | ⟨-, ha⟩
    · exact hmarks.2.1 a ha
    · rw [List.head?_append_of_ne_nil _ hne] at ha
      exact hspace a (List.mem_of_head? ha)
  have hlast : ∀ a ∈ (marker ++ (name.toList ++ [c])).getLast?, Alphabet.isSpace a = false := by
    rw [← List.append_assoc]
    simpa using hbehind.1
  obtain ⟨more, hmore⟩ := exists_trimmed_append hstart (by simp) hnewline hfirst hlast
  refine ⟨['\n', ' ', ' '] ++ marker, c :: (more ++
    ((if Text.endsWith ',' (trimmed d name) then [] else [',']) ++ ['\n'])), ?_,
    ⟨hmarks.2.2, hne, hletters, Lexeme.startsApart_cons.mpr hbehind.2.2⟩⟩
  rw [render_eq]
  generalize (if Text.endsWith ',' (trimmed d name) then [] else [',']) ++ ['\n'] = back
  rw [hmore]
  simp

/-! ## Comments -/

/-- The last line of a text stays when it is indented and the white space behind it is taken off. -/
theorem trimEnd_indent_line {line cut : Text} (hne : line ≠ []) (hnewline : '\n' ∉ line)
    (hlast : ∀ c ∈ line.getLast?, Alphabet.isSpace c = false)
    (hcut : ∀ c ∈ cut, Alphabet.isSpace c = true) (front : Text) :
    Text.trimEnd (front ++ indent (line ++ cut)) = front ++ ' ' :: ' ' :: line := by
  obtain ⟨more, hindent, hmore⟩ := exists_indent_append hne hnewline hlast cut
  have hblank : ∀ c ∈ more, Alphabet.isSpace c = true := fun c hc => (hmore c hc).elim (hcut c) id
  have hends : ∀ c ∈ (front ++ ' ' :: ' ' :: line).getLast?, Alphabet.isSpace c = false := by
    have hcons : front ++ ' ' :: ' ' :: line = (front ++ [' ', ' ']) ++ line := by simp
    rw [hcons, List.getLast?_append_of_ne_nil _ hne]
    exact hlast
  have htrim : Text.trimEnd ((front ++ ' ' :: ' ' :: line) ++ more) = front ++ ' ' :: ' ' :: line :=
    Text.trimEndBy_eq hends hblank
  rw [hindent, ← htrim]
  simp

/-- Indenting a text and taking the white space off leaves a comment at its end as it was. -/
theorem endsInComment_trimEnd_indent {c : Char} (hc : c ∈ t) (hspace : Alphabet.isSpace c = false) :
    Text.endsInComment false (Text.trimEnd (indent t)) =
      Text.endsInComment false (Text.trimEnd t) := by
  obtain ⟨cut, ht, hcut⟩ := Text.trimEndBy_append Alphabet.isSpace t
  have hends := Text.trimEndBy_getLast? Alphabet.isSpace t
  change t = Text.trimEnd t ++ cut at ht
  change ∀ c ∈ (Text.trimEnd t).getLast?, Alphabet.isSpace c = false at hends
  generalize Text.trimEnd t = kept at ht hends ⊢
  have hkept : kept ≠ [] := by
    rintro rfl
    rw [ht, List.nil_append] at hc
    rw [hcut c hc] at hspace
    cases hspace
  have hblanks : ∀ line : Text, Text.endsInComment false (' ' :: ' ' :: line) =
      Text.endsInComment false line := fun line => rfl
  rw [ht]
  -- Only the last line counts.
  by_cases hnewline : '\n' ∈ kept
  · obtain ⟨front, line, hnone, rfl⟩ := Text.exists_last_occurrence hnewline
    have hne : line ≠ [] := by
      rintro rfl
      exact absurd (hends '\n' (by simp)) (by decide)
    have hlast : ∀ c ∈ line.getLast?, Alphabet.isSpace c = false := by
      rw [List.getLast?_append_cons, List.getLast?_cons_of_ne_nil hne] at hends
      exact hends
    have hlines : indent ((front ++ '\n' :: line) ++ cut) =
        (indent (front ++ ['\n']) ++ ['\n']) ++ indent (line ++ cut) := by
      rw [List.append_assoc, List.cons_append, indent_append (by simp [hne])]
      simp
    rw [hlines, trimEnd_indent_line hne hnone hlast hcut, List.append_assoc, List.singleton_append,
      Text.endsInComment_line, Text.endsInComment_line, hblanks]
  · rw [← List.nil_append (indent _), trimEnd_indent_line hkept hnewline hends hcut, List.nil_append,
      hblanks]

/-- A member ends with a comma behind what the declaration is spelled as. A comment that is open there
is one that is open at the end of that. -/
theorem exists_render_eq (d : Declaration) (name : String) :
    ∃ front, render d name = ('\n' :: front) ++ [',', '\n'] ∧
      Text.endsInComment false ('\n' :: front) =
        Text.endsInComment false (Text.trimEnd (spell d name)) := by
  obtain ⟨marker, c, after, hspell, hc, -⟩ := exists_spell_eq d name
  have hmem : c ∈ spell d name := by
    rw [hspell]
    simp
  have hspace : Alphabet.isSpace c = false := by
    rcases hc with rfl | rfl <;> decide
  have htrimmed : Text.endsInComment false (trimmed d name) =
      Text.endsInComment false (Text.trimEnd (spell d name)) := by
    unfold trimmed Text.trim
    rw [Text.trimEnd_trimStart, Text.endsInComment_trimStart, endsInComment_trimEnd_indent hmem hspace]
  have hblanks : ∀ t : Text, Text.endsInComment false ('\n' :: ' ' :: ' ' :: t) =
      Text.endsInComment false t := fun t => rfl
  rw [← htrimmed, render_eq]
  by_cases hcomma : Text.endsWith ',' (trimmed d name) = true
  · -- The comma is there already, and no comment starts with it.
    have hlast : (trimmed d name).getLast? = some ',' := by simpa [Text.endsWith] using hcomma
    obtain ⟨front, hfront⟩ := List.getLast?_eq_some_iff.mp hlast
    refine ⟨' ' :: ' ' :: front, ?_, ?_⟩
    · rw [if_pos hcomma, hfront]
      simp
    · rw [hblanks, hfront, Text.endsInComment_append (by simp)]
      simp [Text.endsInComment, Text.opensComment]
  · refine ⟨' ' :: ' ' :: trimmed d name, ?_, hblanks _⟩
    rw [if_neg hcomma]
    simp

end Graft.Member
